/-!
# Floats read exactly

A finite float is the number `± m · 2^e`. The functions here take that number apart where a
rounded operation would not do: cutting off the fraction, asking whether there is one, and the
remainder of a division. The others settle what a comparison, a maximum or a power means when an
operand is not a number, is infinite, or is a zero of either sign.
-/

namespace ReversePolish.Binary64

open Float.Model (UnpackedFloat)
open Float.Model.UnpackedFloat (Sign)

/-- The float nearest to `n`; of two equally near ones, the one with the even significand. -/
def ofInt (n : Int) : Float := .ofModel (.ofInt n)

/-- The float nearest to `m · 10^e`, infinite if that lies beyond the largest finite float. -/
def ofDecimal (m : Nat) (e : Int) : Float := Float.ofScientific m (e < 0) e.natAbs

/-- The float nearest to `± m · 2^e`. -/
def ofDyadic (sign : Sign) (m : Nat) (e : Int) : Float :=
  .ofModel (.pack (UnpackedFloat.round .binary64 sign m e))

def nan : Float := .ofModel (.pack .notANumber)

/-- The integer part of `m · 2^e`. -/
def integerPart (m : Nat) (e : Int) : Nat :=
  if 0 ≤ e then m <<< e.toNat else m >>> (-e).toNat

/-- Whether `m · 2^e` is an integer. -/
def isInteger (m : Nat) (e : Int) : Bool :=
  0 ≤ e || m % (1 <<< (-e).toNat) == 0

/-- The number that `x` denotes, cut off after the point; `none` if `x` is not finite (what
`value.float_to_integer` looks at). -/
def truncate? (x : Float) : Option Int :=
  match x.toModel.unpack with
  | .zero _ => some 0
  | .finite sign m e _ => some (sign.apply (integerPart m e))
  | .infinity _ | .notANumber => none

def isWhole (x : Float) : Bool :=
  match x.toModel.unpack with
  | .zero _ => true
  | .finite _ m e _ => isInteger m e
  | .infinity _ | .notANumber => false

/-- `x` cut off after the point and brought into `[low, high]`: an infinity goes to the bound on
its side, and what is not a number to zero. -/
def saturate (low high : Int) (x : Float) : Int :=
  match truncate? x with
  | some z => max low (min z high)
  | none => if x.isNaN then 0 else if x < 0.0 then low else high

/-- The order of two floats. A zero equals a zero of the other sign, and nothing is comparable
with what is not a number. -/
def order? (x y : Float) : Option Ordering :=
  if x < y then some .lt
  else if y < x then some .gt
  else if x == y then some .eq
  else none

/-- The larger of the two, and the other one if one of them is not a number. -/
def maximum (x y : Float) : Float :=
  if x.isNaN then y else if x < y then y else x

/-- The smaller of the two, and the other one if one of them is not a number. -/
def minimum (x y : Float) : Float :=
  if x.isNaN then y else if y < x then y else x

/-- The distance from one to the next larger float, `2^-52`. -/
def epsilon : Float := .ofBits 0x3CB0000000000000

/-- Equality up to a relative error of `epsilon`, absolute below one (`value.approx_eq`). Only
finite floats are ever equal in this sense. -/
def nearlyEqual (x y : Float) : Bool :=
  x.isFinite && y.isFinite
    && decide ((x - y).abs ≤ epsilon * maximum (maximum x.abs y.abs) 1.0)

/-- The remainder of `x` by `y` under the quotient cut off toward zero, which is always exact. It
has the sign of `x`, and it is not a number if there is no such quotient. -/
def remainder (x y : Float) : Float :=
  match x.toModel.unpack, y.toModel.unpack with
  | .notANumber, _ | _, .notANumber | .infinity _, _ | _, .zero _ => nan
  | _, .infinity _ => x
  | .zero _, _ => x
  | .finite sign m e _, .finite _ n f _ =>
    let common := min e f
    ofDyadic sign ((m <<< (e - common).toNat) % (n <<< (f - common).toNat)) common

/-- `acc · x^n`, multiplying up the squares of `x` that the binary digits of `n` select, lowest
first. -/
def powerFrom (acc x : Float) (n : Nat) : Float :=
  if n = 0 then acc
  else powerFrom (if n % 2 = 1 then acc * x else acc) (x * x) (n / 2)
termination_by n

/-- `x` to the power of `n`, rounded after every multiplication. -/
def power (x : Float) (n : Nat) : Float := powerFrom 1.0 x n

/-- `x` rounded to `digits` decimal places, halves going away from zero (`operators.round_to`); a
negative count rounds to tens, hundreds and so on. Where scaling leaves the range of floats there is
nothing to round on the one side, and only zero is left on the other. -/
def roundPlaces (x : Float) (digits : Int) : Float :=
  if !x.isFinite then x
  else
    let scale := power 10.0 (min digits.natAbs Int32.maxValue.toInt.toNat)
    if 0 ≤ digits then
      let scaled := x * scale
      if scaled.isFinite then scaled.round / scale else x
    else if scale.isFinite then (x / scale).round * scale
    else 0.0

end ReversePolish.Binary64
