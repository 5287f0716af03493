import ReversePolish.Machine.Effect
/-!
# Operators

An operator is a name, the number of slots that it wants to find in the active segment, and an
effect. A table keeps operators in the order of their registration and is only ever added to; a
name stands for the operator that was registered first under it.
-/

namespace ReversePolish

/-- A named effect on operands. -/
structure Operator where
  name : String
  arity : Nat
  body : Effect Unit

/-- Runs the body of an operator if the active segment holds enough slots for it
(`Operator.dispatch`). -/
def Operator.apply (op : Operator) : Effect Unit := do
  if (← Effect.size) < op.arity then throw (.operator .argumentCountMismatch)
  op.body

theorem Operator.run_apply (op : Operator) (s : Machine) :
    op.apply.run s =
      if s.stack.size < op.arity then .error (.operator .argumentCountMismatch) s
      else op.body.run s := by
  simp only [Operator.apply, EStateM.run_bind, Effect.run_size]
  split <;> rfl

/-- Operators in the order of their registration (`Operators`). -/
structure OperatorTable where
  operators : List Operator := []

namespace OperatorTable

/-- The operator that a name stands for (`Operators.find`). -/
def find? (t : OperatorTable) (name : String) : Option Operator :=
  t.operators.find? fun op => op.name == name

/-- Adds an operator behind all others (`Operators.register`). -/
def register (t : OperatorTable) (op : Operator) : OperatorTable := ⟨t.operators ++ [op]⟩

/-- The number of registrations. -/
def size (t : OperatorTable) : Nat := t.operators.length

/-- Whether nothing was registered. -/
def isEmpty (t : OperatorTable) : Bool := t.operators.isEmpty

/-- The names in the order of registration, with repetitions. -/
def names (t : OperatorTable) : List String := t.operators.map Operator.name

end OperatorTable

namespace Operator

/-! ## Common bodies -/

/-- An operator that puts a value in the place of the two top ones (`binary_op` of
`operators.install_builtins`). -/
def binary (name : String) (f : Value → Value → Value) : Operator where
  name := name
  arity := 2
  body := do
    let b ← Effect.pop
    let a ← Effect.pop
    Effect.push (f a b)

/-- An operator that puts a value in the place of the top one (`unary_op`). -/
def unary (name : String) (f : Value → Value) : Operator where
  name := name
  arity := 1
  body := do
    let a ← Effect.pop
    Effect.push (f a)

/-- An operator that pushes a value. -/
def constant (name : String) (v : Value) : Operator where
  name := name
  arity := 0
  body := Effect.push v

/-- An operator that moves and copies slots. -/
def shuffle (name : String) (arity : Nat) (f : Stack → Except OperatorError Stack) : Operator where
  name := name
  arity := arity
  body := Effect.onStack f

end Operator

end ReversePolish
