import ReversePolish.Number.Arithmetic
import ReversePolish.Value.Basic
/-!
# Arithmetic on values

Arithmetic never fails: what has no result gives an error value. An error operand comes first, the
left one before the right one, then a null one. Strings can only be joined. All else is arithmetic
on numbers.
-/

namespace ReversePolish.Value

/-- An operation on two strings: they can be joined, and that is all (a case of
`Value.precheck`). -/
def joinStrings (op : Operation) (a b : String) : Value :=
  if op = .add then .string (a ++ b) else .error .invalidOperation

/-- The error of an operation between a string and a number. -/
def mixedStrings (op : Operation) : ValueError :=
  if op = .add then .typeMismatch else .invalidOperation

/-- An operation on two values (`Value.arith`). The cases before the last are those of
`Value.precheck`. -/
def arithmetic (op : Operation) (a b : Value) : Value :=
  match a, b with
  | .error code, _ | _, .error code => .error code
  | .null, _ | _, .null => .error .isNull
  | .boolean _, .string _ | .string _, .boolean _ => .error .invalidOperation
  | .string s, .string t => joinStrings op s t
  | .string _, _ | _, .string _ => .error (mixedStrings op)
  | a, b => ofExcept .number do (← a.checkedNumber).arithmetic op (← b.checkedNumber)

/-- The absolute value; a boolean becomes an integer. -/
def abs : Value → Value
  | .null => .error .isNull
  | .string _ => .error .invalidOperation
  | .error code => .error code
  | v => ofExcept .number (v.checkedNumber.map Number.abs)

/-- Applies a function to a float (`operators.float_map`). Integers are left alone, a boolean
becomes one, and an error stays what it is. -/
def mapFloat (f : Float → Float) : Value → Value
  | .null => .error .isNull
  | .string _ => .error .invalidOperation
  | .error code => .error code
  | v => ofExcept .number (v.checkedNumber.map (Number.mapFloat f))

end ReversePolish.Value
