import ReversePolish.Operator.Basic
/-!
# Elementary functions

Operators for roots, logarithms, exponentials and angles. Which functions on floats stand behind
them is a parameter. Whatever these return, the operators never push what is not finite: that is an
error value, as it is when an operand was not finite to begin with.
-/

namespace ReversePolish

/-- The functions on floats that the operators are built on. -/
structure ElementaryFunctions where
  sqrt : Float → Float
  log : Float → Float
  log10 : Float → Float
  exp : Float → Float
  sin : Float → Float
  cos : Float → Float
  tan : Float → Float
  pow : Float → Float → Float
  remainder : Float → Float → Float

namespace ElementaryFunctions

/-- The functions of the platform, and the exact remainder. -/
def standard : ElementaryFunctions where
  sqrt := Float.sqrt
  log := Float.log
  log10 := Float.log10
  exp := Float.exp
  sin := Float.sin
  cos := Float.cos
  tan := Float.tan
  pow := Float.pow
  remainder := Binary64.remainder

/-- A float as a value if it is finite, and an error value otherwise (`math.checked`). -/
def finite (x : Float) : Value := if x.isFinite then .float x else .error .ieee754

/-- Applies a function to a finite operand (`math.unary`). -/
def onFinite (f : Float → Float) (v : Value) : Value :=
  match v.requireFloat with
  | .ok x => if x.isFinite then finite (f x) else .error .ieee754
  | .error code => .error code

/-- Applies a function to two operands (`math.binary`). Of two that are no numbers the first
decides. -/
def onPair (f : Float → Float → Value) (a b : Value) : Value :=
  match a.requireFloat, b.requireFloat with
  | .ok x, .ok y => f x y
  | .error code, _ | _, .error code => .error code

/-- The remainder by a divisor other than zero (`math.fmod`). -/
def checkedRemainder (lib : ElementaryFunctions) (x y : Float) : Value :=
  if y == 0.0 then .error .divideByZero else finite (lib.remainder x y)

/-- The operators in the order of their registration (`math.install`). -/
def operators (lib : ElementaryFunctions) : List Operator :=
  [.unary "sqrt" (onFinite lib.sqrt),
   .unary "log" (onFinite lib.log),
   .unary "log10" (onFinite lib.log10),
   .unary "exp" (onFinite lib.exp),
   .unary "sin" (onFinite lib.sin),
   .unary "cos" (onFinite lib.cos),
   .unary "tan" (onFinite lib.tan),
   .binary "fmod" (onPair lib.checkedRemainder),
   .binary "pow" (onPair fun x y => finite (lib.pow x y))]

end ElementaryFunctions

end ReversePolish
