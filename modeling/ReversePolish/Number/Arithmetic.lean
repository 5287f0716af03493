import ReversePolish.Number.Basic
/-!
# Arithmetic on numbers

The left operand decides the representation: the right one is converted to it, checked, and the
result stays in it. Words wrap. Division cuts off toward zero, and the modulo is the floored one,
which takes the sign of the divisor.
-/

namespace ReversePolish

/-- The five operations of arithmetic (`Op`). -/
inductive Operation where
  | add
  | sub
  | mul
  | div
  | mod
  deriving DecidableEq, Repr

namespace Operation

/-- The operations that have no result when the right operand is zero. -/
def divides : Operation → Bool
  | .div | .mod => true
  | .add | .sub | .mul => false

/-- The floored modulo of signed words: the remainder of the division cut off toward zero, moved
by one divisor when its sign is not that of the divisor (the last case of `value.int_op`). -/
def flooredMod (a b : Int64) : Int64 :=
  let r := a % b
  if r ≠ 0 ∧ ¬(r < 0 ↔ b < 0) then r + b else r

/-- An operation on signed words (`value.int_op`). -/
def onIntegers (op : Operation) (a b : Int64) : Except ValueError Int64 :=
  if op.divides && b == 0 then .error .divideByZero
  else .ok <| match op with
    | .add => a + b
    | .sub => a - b
    | .mul => a * b
    | .div => a / b
    | .mod => flooredMod a b

/-- An operation on unsigned words (`value.uint_op`). -/
def onUnsigned (op : Operation) (a b : UInt64) : Except ValueError UInt64 :=
  if op.divides && b == 0 then .error .divideByZero
  else .ok <| match op with
    | .add => a + b
    | .sub => a - b
    | .mul => a * b
    | .div => a / b
    | .mod => a % b

/-- An operation on floats (`value.float_op`). Dividing needs a finite divisor; the modulo is
`a - ⌊a / b⌋ · b`, rounded at every step. -/
def onFloats (op : Operation) (a b : Float) : Except ValueError Float :=
  if op.divides && b == 0.0 then .error .divideByZero
  else if op.divides && !b.isFinite then .error .ieee754
  else .ok <| match op with
    | .add => a + b
    | .sub => a - b
    | .mul => a * b
    | .div => a / b
    | .mod => a - (a / b).floor * b

end Operation

/-- An operation on numbers, in the representation of the left one (the second half of
`Value.arith`). -/
def Number.arithmetic (op : Operation) (a b : Number) : Except ValueError Number :=
  match a with
  | .integer i => do return .integer (← op.onIntegers i (← b.checkedInt))
  | .unsigned u => do return .unsigned (← op.onUnsigned u (← b.checkedUnsigned))
  | .float x => do return .float (← op.onFloats x b.toFloat)

end ReversePolish
