import ReversePolish.Operator.Basic
import ReversePolish.Value.Arithmetic
/-!
# Operators of a host

Bodies that a host can register beside the built-in operators, one for each thing that a body may
do: compute with any number of operands, fail in each of the three code spaces, push values that
stop a run, shuffle, open and close segments, and refer to variables.
-/

namespace ReversePolish

/-- The operators that a host can register. -/
inductive HostOperator where
  | sum
  | cannotContinue
  | decline
  | failValue
  | pushText
  | pushNull
  | pushError
  | rollFour
  | openSegment
  | closeSegment
  | createVariable
  | requireVariable
  | dropTwo
  deriving DecidableEq, Repr

namespace HostOperator

/-- `x₁ … xₙ n -> x`, the sum of `n` values, topmost first, on top of the float zero. -/
def addUp : Effect Unit := do
  let n := (← Effect.ofExcept .value (← Effect.pop).checkedUnsigned).toNat
  if n > (← Effect.size) then throw (.operator .invalidArgument)
  let terms ← Effect.popMany n
  let s ← get
  Effect.push (terms.foldl (fun acc slot => acc.arithmetic .add (s.see slot)) (.float 0.0))

/-- What the operator does. -/
def body : HostOperator → Effect Unit
  | sum => addUp
  | cannotContinue => throw (.operator .cannotContinue)
  | decline => throw (.processing .tokenNotHandled)
  | failValue => throw (.value .notAnError)
  | pushText => Effect.push (.string "shadow")
  | pushNull => Effect.push .null
  | pushError => Effect.push (.error .ieee754)
  | rollFour => Effect.onStack (·.roll 4)
  | openSegment => Effect.openSegment
  | closeSegment => Effect.closeSegment
  | createVariable => Effect.refer "tmp" true
  | requireVariable => Effect.refer "need" false
  | dropTwo => do
    let _ ← Effect.pop
    let _ ← Effect.pop

end HostOperator

end ReversePolish
