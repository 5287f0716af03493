import ReversePolish.Decimal.Shortest
/-!
# Floats as text

A float is written with the fewest digits that read back, in positional form with a point and at
least one digit after it, or in scientific form where that would need many zeros.
-/

namespace ReversePolish

/-- The choices that a form of floats leaves open. -/
structure FloatStyle where
  /-- The powers of ten of the first digit that are written in positional form. -/
  positional : Int → Bool
  infinity : String
  notANumber : String

/-- Floats from `0.0001` up to but not including `1e16` are positional. -/
def FloatStyle.standard : FloatStyle where
  positional p := -4 ≤ p && p < 16
  infinity := "inf"
  notANumber := "NaN"

namespace Decimal

/-- Digits with the point after the first `point` of them, zeros filling the gaps. -/
def positional (digits : List Char) (point : Int) : List Char :=
  if point ≤ 0 then ['0', '.'] ++ List.replicate (-point).toNat '0' ++ digits
  else
    let whole := point.toNat
    let fraction := digits.drop whole
    digits.take whole ++ List.replicate (whole - digits.length) '0' ++ ['.']
      ++ (if fraction.isEmpty then ['0'] else fraction)

/-- One digit before the point, and a power of ten; no point if nothing follows it. -/
def scientific (digits : List Char) (power : Int) : List Char :=
  let fraction := digits.drop 1
  digits.take 1 ++ (if fraction.isEmpty then [] else '.' :: fraction)
    ++ 'e' :: (toString power).toList

def text (style : FloatStyle) (d : Decimal) : List Char :=
  let digits := Nat.toDigits 10 d.significand
  let point := digits.length + d.exponent
  if style.positional (point - 1) then positional digits point
  else scientific digits (point - 1)

end Decimal

/-- The text of a float; a zero keeps its sign. -/
def FloatStyle.text (style : FloatStyle) (x : Float) : String :=
  let signed (sign : Float.Model.UnpackedFloat.Sign) (magnitude : String) : String :=
    match sign with
    | .positive => magnitude
    | .negative => "-" ++ magnitude
  match x.toModel.unpack with
  | .notANumber => style.notANumber
  | .infinity sign => signed sign style.infinity
  | .zero sign => signed sign "0.0"
  | .finite sign m e _ => signed sign (String.ofList ((Decimal.shortest m e).text style))

end ReversePolish
