import ReversePolish.Failure
import ReversePolish.Binary64
/-!
# Numbers

A number is a signed or an unsigned 64-bit word or a float. A conversion between the three is
either checked, and then refuses what the target cannot hold, or best effort, and then wraps an
integer and saturates a float. Both look at the mathematical integer that the number stands for
once its fraction is cut off.
-/

namespace ReversePolish

/-- A number in one of its three representations. -/
inductive Number where
  | integer (i : Int64)
  | unsigned (u : UInt64)
  | float (x : Float)
  deriving DecidableEq, Repr

namespace Number

/-- Whether the integer `z` is a signed word. -/
def fitsInteger (z : Int) : Bool := Int64.minValue.toInt ≤ z && z ≤ Int64.maxValue.toInt

def fitsUnsigned (z : Int) : Bool := 0 ≤ z && z < UInt64.size

/-- The exact integer behind a number that is not a float (`exact` in `value.exact_pair`). -/
def integer? : Number → Option Int
  | .integer i => some i.toInt
  | .unsigned u => some u.toNat
  | .float _ => none

/-- The integer that a number stands for, its fraction cut off; a float that is not finite has
none. -/
def truncate? : Number → Option Int
  | .integer i => some i.toInt
  | .unsigned u => some u.toNat
  | .float x => Binary64.truncate? x

def isWhole : Number → Bool
  | .integer _ | .unsigned _ => true
  | .float x => Binary64.isWhole x

/-- The number as a signed word; an unsigned word wraps, a float saturates. -/
def toInt : Number → Int64
  | .integer i => i
  | .unsigned u => u.toInt64
  | .float x => Int64.ofInt (Binary64.saturate Int64.minValue.toInt Int64.maxValue.toInt x)

/-- The number as an unsigned word; a signed word wraps, a float saturates. -/
def toUnsigned : Number → UInt64
  | .integer i => i.toUInt64
  | .unsigned u => u
  | .float x => UInt64.ofInt (Binary64.saturate 0 (UInt64.size - 1) x)

def toFloat : Number → Float
  | .integer i => Binary64.ofInt i.toInt
  | .unsigned u => Binary64.ofInt u.toNat
  | .float x => x

/-- Whether a number is neither zero nor not a number at all. -/
def isTruthy : Number → Bool
  | .integer i => i != 0
  | .unsigned u => u != 0
  | .float x => !x.isNaN && !(x == 0.0)

/-- The number as a signed word, refused if its integer is none. -/
def checkedInt (n : Number) : Except ValueError Int64 :=
  match n.truncate? with
  | some z => if fitsInteger z then .ok (Int64.ofInt z) else .error .outOfRangeConversion
  | none => .error .outOfRangeConversion

/-- The number as an unsigned word, refused if its integer is none. -/
def checkedUnsigned (n : Number) : Except ValueError UInt64 :=
  match n.truncate? with
  | some z => if fitsUnsigned z then .ok (UInt64.ofInt z) else .error .outOfRangeConversion
  | none => .error .outOfRangeConversion

/-- The absolute value in the same representation; that of the least signed word wraps. -/
def abs : Number → Number
  | .integer i => .integer (if i < 0 then -i else i)
  | .unsigned u => .unsigned u
  | .float x => .float x.abs

def mapFloat (f : Float → Float) : Number → Number
  | .float x => .float (f x)
  | n => n

/-- The order of two numbers: exact between integers, and that of the floats otherwise
(`Value.ordering`). -/
def order? (a b : Number) : Option Ordering :=
  match a.integer?, b.integer? with
  | some x, some y => some (compare x y)
  | _, _ => Binary64.order? a.toFloat b.toFloat

/-- Equality of two numbers: exact between integers, approximate as soon as one is a float. -/
def equal (a b : Number) : Bool :=
  match a.integer?, b.integer? with
  | some x, some y => x == y
  | _, _ => Binary64.nearlyEqual a.toFloat b.toFloat

end Number

end ReversePolish
