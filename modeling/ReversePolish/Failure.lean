/-!
# Failures

What can go wrong, in three code spaces: reading text and resolving names (`ProcessingError`),
running an operator (`OperatorError`), and computing with values (`ValueError`). A value error is
also a value of its own: it can lie on the stack and flow through arithmetic.

`Failure` is one code together with the space it belongs to, and `Diagnostic` is a failure with
the place in the text where it was noticed. Each of them has exactly one wording, given by its
`message`.
-/

namespace ReversePolish

/-- Failures found while text is turned into tokens and tokens are resolved. -/
inductive ProcessingError where
  | unknownToken
  | invalidToken
  | variableDoesNotExist
  | unknownOperator
  | noMoreStacks
  /-- Never raised by the evaluator, which handles every kind of token: it is there for a host
  that declines one. -/
  | tokenNotHandled
  | inputBufferOverflow
  deriving DecidableEq, Repr

/-- Failures of applying an operator. -/
inductive OperatorError where
  | cannotContinue
  | argumentCountMismatch
  | invalidType
  | invalidArgument
  deriving DecidableEq, Repr

/-- Failures of computing with values, which an error value carries. -/
inductive ValueError where
  | invalidOperation
  | typeMismatch
  | divideByZero
  | ieee754
  | isNull
  | notAnError
  | outOfRangeConversion
  | impossibleConversion
  deriving DecidableEq, Repr

def ProcessingError.message : ProcessingError → String
  | .unknownToken => "unknown token"
  | .invalidToken => "invalid token"
  | .variableDoesNotExist => "variable does not exist"
  | .unknownOperator => "unknown operator"
  | .noMoreStacks => "no more stacks to close"
  | .tokenNotHandled => "token not handled"
  | .inputBufferOverflow => "input buffer overflow"

def OperatorError.message : OperatorError → String
  | .cannotContinue => "cannot continue"
  | .argumentCountMismatch => "argument count mismatch"
  | .invalidType => "invalid type"
  | .invalidArgument => "invalid argument"

def ValueError.message : ValueError → String
  | .invalidOperation => "invalid operation"
  | .typeMismatch => "type mismatch"
  | .divideByZero => "divide by zero"
  | .ieee754 => "IEEE 754 violation"
  | .isNull => "value is null"
  | .notAnError => "not an error"
  | .outOfRangeConversion => "out of range conversion"
  | .impossibleConversion => "impossible conversion"

/-- One code, tagged with the space it belongs to (`ErrorKind`). -/
inductive Failure where
  | processing (code : ProcessingError)
  | operator (code : OperatorError)
  | value (code : ValueError)
  deriving DecidableEq, Repr

/-- The wording of a failure names its code space first. -/
def Failure.message : Failure → String
  | .processing code => "processing error: " ++ code.message
  | .operator code => "operator error: " ++ code.message
  | .value code => "value error: " ++ code.message

/-- A failure, and the byte offset in the text of the token that was being handled, if it came
from text at all (`Error`). -/
structure Diagnostic where
  failure : Failure
  position : Option Nat
  deriving DecidableEq, Repr

/-- A failure that belongs to no place in a text (`Error.new`). -/
def Diagnostic.unplaced (failure : Failure) : Diagnostic := ⟨failure, none⟩

/-- A failure noticed at the byte offset `position` (`Error.at`). -/
def Diagnostic.atOffset (failure : Failure) (position : Nat) : Diagnostic :=
  ⟨failure, some position⟩

/-- The wording of a diagnostic ends with the offset, when there is one (`Error.decode`). -/
def Diagnostic.message (d : Diagnostic) : String :=
  match d.position with
  | none => d.failure.message
  | some offset => d.failure.message ++ " at offset " ++ toString offset

end ReversePolish
