/-!
# The shortest decimal that reads back

Every real number strictly between the midpoints to the two neighbours of a float is read back as
that float, and a midpoint itself is if the significand is even. The shortest decimal of a float
lies on the coarsest grid of powers of ten that has a point in this interval: of two such points
it is the nearer, and of two equally near ones the larger.
-/

namespace ReversePolish

/-- The number `significand · 10^exponent`. -/
structure Decimal where
  significand : Nat
  exponent : Int
  deriving DecidableEq, Repr

namespace Decimal

/-- The powers of ten from the coarsest to the finest grid that the positive floats need. -/
def grids : List Int := (List.range 633).map fun (i : Nat) => 308 - (i : Int)

example : grids.head? = some 308 ∧ grids.getLast? = some (-324) := by decide +kernel

/-- The distance from `m · 2^e` down to the midpoint below it, in quarters of `2^e`. It is half as
large as usual at the lower end of a binade, where the floats below lie closer together. -/
def quartersBelow (m : Nat) (e : Int) : Nat :=
  if m = 1 <<< 52 ∧ -1074 < e then 1 else 2

/-- The point of the grid `10^k` that stands for the float `m · 2^e`, if one of its two neighbours
on the grid is read back as that float. All is measured in quarters of `2^e`, brought to the
common denominator of the grid and the float. -/
def onGrid? (m : Nat) (e k : Int) : Option Nat :=
  let step := Nat.pow 10 k.toNat <<< (2 - e).toNat
  let quarter := Nat.pow 10 (-k).toNat <<< (e - 2).toNat
  let value := 4 * m * quarter
  let low := (4 * m - quartersBelow m e) * quarter
  let high := (4 * m + 2) * quarter
  let readsBack (c : Nat) : Bool :=
    if m % 2 = 0 then low ≤ c * step && c * step ≤ high
    else low < c * step && c * step < high
  let below := value / step
  match readsBack below, readsBack (below + 1) with
  | true, true =>
    if value - below * step < (below + 1) * step - value then some below else some (below + 1)
  | true, false => some below
  | false, true => some (below + 1)
  | false, false => none

/-- The shortest decimal that is read back as the float `m · 2^e`. -/
def shortest (m : Nat) (e : Int) : Decimal :=
  (grids.findSome? fun k => (onGrid? m e k).map (Decimal.mk · k)).getD ⟨0, 0⟩

end Decimal

end ReversePolish
