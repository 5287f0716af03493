import ReversePolish.Decimal.Text
import ReversePolish.Number.Numeral
/-!
# Values

What a slot of the stack or a variable holds. An error is an ordinary value: it flows through
arithmetic until something asks for its tag. A boolean takes part in everything numeric as the
integer zero or one, so `Value.number?` is the only place that knows about it.

Coercions come in two kinds. The best-effort ones (`toBoolean`, `toInt`, `toUnsigned`, `toFloat`)
never fail and read a number out of a string; what they cannot use gives the zero of the target.
The checked ones refuse a value that is no number, and a number that does not fit.
-/

namespace ReversePolish

/-- A value. -/
inductive Value where
  | null
  | error (code : ValueError)
  | boolean (b : Bool)
  | number (n : Number)
  | string (s : String)
  deriving DecidableEq, Repr

namespace Value

/-- A signed integer. -/
@[match_pattern] abbrev integer (i : Int64) : Value := .number (.integer i)

/-- An unsigned integer. -/
@[match_pattern] abbrev unsigned (u : UInt64) : Value := .number (.unsigned u)

/-- A float. -/
@[match_pattern] abbrev float (x : Float) : Value := .number (.float x)

/-- The result of a computation with values as a value: a failure becomes an error value
(`Value.from`). -/
def ofExcept {α : Type} (wrap : α → Value) : Except ValueError α → Value
  | .ok a => wrap a
  | .error code => .error code

/-- The name of the kind of a value (`Value.type_name`). -/
def kindName : Value → String
  | .null => "null"
  | .error _ => "error"
  | .boolean _ => "boolean"
  | .integer _ => "integer"
  | .unsigned _ => "unsigned"
  | .float _ => "float"
  | .string _ => "string"

def isNull : Value → Bool
  | .null => true
  | _ => false

def isError : Value → Bool
  | .error _ => true
  | _ => false

def isString : Value → Bool
  | .string _ => true
  | _ => false

/-- The code of an error value; any other value is not an error (`Value.error`). -/
def errorCode : Value → ValueError
  | .error code => code
  | _ => .notAnError

def number? : Value → Option Number
  | .boolean b => some (.integer (if b then 1 else 0))
  | .number n => some n
  | .null | .error _ | .string _ => none

/-- Whether a value takes part in everything numeric (`value.numeric`). -/
def isNumeric (v : Value) : Bool := v.number?.isSome

/-- The number behind a numeric value or written in a string. -/
def readNumber? : Value → Option Number
  | .string s => Number.ofText? s.toList
  | v => v.number?

/-! ## Best-effort coercions -/

/-- Whether a value counts as true. A string does unless it is empty. -/
def toBoolean : Value → Bool
  | .null | .error _ => false
  | .boolean b => b
  | .number n => n.isTruthy
  | .string s => !s.isEmpty

/-- A value as a signed word. -/
def toInt (v : Value) : Int64 := v.readNumber?.elim 0 Number.toInt

/-- A value as an unsigned word (`Value.to_uint`). -/
def toUnsigned (v : Value) : UInt64 := v.readNumber?.elim 0 Number.toUnsigned

def toFloat (v : Value) : Float := v.readNumber?.elim 0.0 Number.toFloat

/-! ## Checked coercions -/

/-- The number behind a numeric value; nothing else converts to one. -/
def checkedNumber (v : Value) : Except ValueError Number :=
  match v.number? with
  | some n => .ok n
  | none => .error .impossibleConversion

/-- A value as a signed word, or why it is none (`Value.checked_to_int`). -/
def checkedInt (v : Value) : Except ValueError Int64 := v.checkedNumber >>= Number.checkedInt

/-- A value as an unsigned word, or why it is none (`Value.checked_to_uint`). -/
def checkedUnsigned (v : Value) : Except ValueError UInt64 :=
  v.checkedNumber >>= Number.checkedUnsigned

/-- A value as a float, or why it is none (`Value.checked_to_float`). -/
def checkedFloat (v : Value) : Except ValueError Float := v.checkedNumber.map Number.toFloat

/-- The operand of an operator that works on floats alone (`Value.float_operand`). An error hands
back the code that it carries. -/
def requireFloat : Value → Except ValueError Float
  | .error code => .error code
  | v => v.checkedFloat

/-! ## Text -/

/-- The text of a value (`Value.fmt`). A string stands for itself. -/
def text : Value → String
  | .null => "null"
  | .error code => "error: " ++ code.message
  | .boolean b => if b then "true" else "false"
  | .integer i => toString i.toInt
  | .unsigned u => toString u.toNat
  | .float x => FloatStyle.standard.text x
  | .string s => s

end Value

end ReversePolish
