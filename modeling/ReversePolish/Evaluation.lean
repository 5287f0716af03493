import ReversePolish.Operator.Basic
import ReversePolish.Token.Lexer
/-!
# Evaluation

Tokens are executed one after the other, until one fails. A number or a string is pushed, a
reference pushes its variable, a bracket opens or closes a segment, and any other word is the
operator of that name or, if there is none, the variable of that name. An operator that leaves an
error value on top has failed with the code of that error.

A run keeps a record of every token together with the depth of the stack before it was executed,
the one that failed included.
-/

namespace ReversePolish

/-- A token, and the number of slots in all segments before it was executed. -/
structure Trace where
  token : Token
  depth : Nat
  deriving DecidableEq, Repr

/-- Fails with the code of an error value on top of the stack. -/
def failOnErrorValue : Effect Unit := do
  if let some (.value (.error code)) := (← get).stack.active.head? then throw (.value code)

/-- Executes a word (`Context.word`). -/
def executeWord (table : OperatorTable) (word : String) : Effect Unit := do
  if word = "[" then Effect.openSegment
  else if word = "]" then Effect.closeSegment
  else
    match table.find? word with
    | some op =>
      op.apply
      failOnErrorValue
    | none =>
      if (← get).registry.contains word then Effect.refer word false
      else if Number.startsLikeNumber word.toList then throw (.processing .unknownToken)
      else throw (.processing .unknownOperator)

/-- Executes a token (`Context.dispatch`). Under `mustExist` no reference creates a variable. -/
def execute (table : OperatorTable) (mustExist : Bool) (t : Token) : Effect Unit :=
  match t.kind with
  | .number n => Effect.push (.number n)
  | .string => Effect.push (.string t.text)
  | .reference => Effect.refer t.text (!mustExist)
  | .boundReference => Effect.refer t.text false
  | .word => executeWord table t.text

/-- How a run ended, and the records of its tokens. -/
structure Run where
  failure : Option Diagnostic
  machine : Machine
  trace : List Trace
  deriving DecidableEq, Repr

/-- Executes tokens until one fails (the loop of `Context.run`). -/
def runTokens (table : OperatorTable) (mustExist : Bool) : List Token → Machine → Run
  | [], s => ⟨none, s, []⟩
  | t :: rest, s =>
    let seen : Trace := ⟨t, s.stack.depth⟩
    match (execute table mustExist t).run s with
    | .ok _ s =>
      let run := runTokens table mustExist rest s
      { run with trace := seen :: run.trace }
    | .error failure s => ⟨some (.atOffset failure t.offset), s, [seen]⟩

/-- Evaluates a text of at most `capacity` bytes (`Context.run`). What stops the lexer stops the run
once all tokens before it are executed. -/
def runText (table : OperatorTable) (capacity : Nat) (mustExist : Bool) (text : String)
    (s : Machine) : Run :=
  match Lexer.ofText text capacity with
  | .error reason => ⟨some reason, s, []⟩
  | .ok lexer =>
    let found := lexer.drain
    let run := runTokens table mustExist found.tokens s
    { run with failure := run.failure.or found.failure }

end ReversePolish
