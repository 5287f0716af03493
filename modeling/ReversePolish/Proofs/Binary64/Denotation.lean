import Mathlib
import ReversePolish.Binary64
/-!
# What floats denote

A finite float denotes a rational number, `± m · 2^e`. On a line with these numbers the infinities
stand at the two ends, and what is not a number has no place at all.

Floats are compared by their exponents first and by their significands after that. This compares the
numbers, because the bits of a float leave no choice of an exponent: the significand has all its 53
digits unless the exponent is the least one (`Canonical`). So the order of two floats is that of
their places on the line (`order?_eq_some`).
-/

namespace ReversePolish.Binary64

open Float.Model (UnpackedFloat Format)
open Float.Model.UnpackedFloat (Sign unpack unpackExponent unpackMantissa)

/-! ## Numbers and places -/

/-- The number behind a float that is taken apart, if it is finite. -/
def numberOf : UnpackedFloat → Option ℚ
  | .zero _ => some 0
  | .finite sign m e _ => some (sign.apply m * 2 ^ e)
  | .infinity _ | .notANumber => none

/-- The number that a finite float denotes. -/
def rational? (x : Float) : Option ℚ := numberOf x.toModel.unpack

/-- The rational numbers with an infinity at each end. -/
abbrev Place := WithBot (WithTop ℚ)

namespace Place

def ofRational (q : ℚ) : Place := ((q : WithTop ℚ) : WithBot (WithTop ℚ))

@[simp] theorem ofRational_inj {p q : ℚ} : ofRational p = ofRational q ↔ p = q := by
  simp [ofRational]

@[simp] theorem ofRational_lt {p q : ℚ} : ofRational p < ofRational q ↔ p < q := by
  simp [ofRational]

@[simp] theorem ofRational_le {p q : ℚ} : ofRational p ≤ ofRational q ↔ p ≤ q := by
  simp [ofRational]

@[simp] theorem bot_lt_ofRational (q : ℚ) : ⊥ < ofRational q := by simp [ofRational]

@[simp] theorem ofRational_lt_top (q : ℚ) : ofRational q < ⊤ :=
  WithBot.coe_lt_coe.2 (WithTop.coe_lt_top q)

theorem compares_ofRational {o : Ordering} {p q : ℚ} :
    o.Compares (ofRational p) (ofRational q) ↔ o.Compares p q := by
  cases o <;> simp [Ordering.Compares]

end Place

def placeOf : UnpackedFloat → Option Place
  | .infinity .negative => some ⊥
  | .infinity .positive => some ⊤
  | u => (numberOf u).map .ofRational

/-- The place of a float on the line, if it is a number at all. -/
def place? (x : Float) : Option Place := placeOf x.toModel.unpack

theorem place?_eq_ofRational {x : Float} {q : ℚ} :
    place? x = some (.ofRational q) ↔ rational? x = some q := by
  unfold place? rational?
  cases x.toModel.unpack with
  | infinity sign =>
    cases sign with
    | negative => simp [placeOf, numberOf, (Place.bot_lt_ofRational q).ne]
    | positive => simp [placeOf, numberOf, (Place.ofRational_lt_top q).ne']
  | notANumber | zero | finite => simp [placeOf, numberOf]

theorem isFinite_iff {x : Float} : x.isFinite ↔ ∃ q, rational? x = some q := by
  change x.toModel.unpack.isFinite = true ↔ _
  unfold rational?
  cases x.toModel.unpack <;> simp [numberOf, UnpackedFloat.isFinite]

theorem isInf_of_place? {x : Float} {a : Place} (h : place? x = some a) : x.isInf = !x.isFinite := by
  change x.toModel.unpack.isInf = !x.toModel.unpack.isFinite
  unfold place? at h
  cases hx : x.toModel.unpack with
  | notANumber =>
    rw [hx] at h
    cases h
  | infinity | zero | finite => rfl

/-! ## The form of a finite float -/

/-- The significand and the exponent of a float: there are 53 digits, the first of which is not
zero unless the exponent is the least one. -/
structure Canonical (m : ℕ) (e : ℤ) : Prop where
  lt : m < 2 ^ 53
  le : -1074 ≤ e
  normal : -1074 < e → 2 ^ 52 ≤ m

theorem toNat_append_one {w : ℕ} (v : BitVec w) : (1#1 ++ v).toNat = 2 ^ w + v.toNat := by
  rw [BitVec.toNat_append, ← Nat.shiftLeft_add_eq_or_of_lt v.isLt]
  simp [Nat.shiftLeft_eq]

theorem canonical_of_unpack {x : Float} {sign : Sign} {m : ℕ} {e : ℤ} {h : 0 < m}
    (hx : x.toModel.unpack = .finite sign m e h) : Canonical m e := by
  have hbits : (@unpackMantissa .binary64 x.toModel.toBits.toBitVec).toNat < 2 ^ 52 :=
    BitVec.isLt _
  have hbias : ((Format.binary64.exponentBias : ℕ) : ℤ) = 1023 := rfl
  unfold Float.Model.unpack unpack at hx
  simp only [hbias] at hx
  split at hx
  · split at hx <;> cases hx
  · split at hx
    · next hleast =>
      split at hx
      · cases hx
      · injection hx with _ hm he
        rw [hleast] at he
        simp at he
        exact ⟨by omega, by omega, by omega⟩
    · next hleast =>
      injection hx with _ hm he
      replace hm := (toNat_append_one (w := 52) _).symm.trans hm
      have hpos : 0 < (@unpackExponent .binary64 x.toModel.toBits.toBitVec).toNat :=
        Nat.pos_of_ne_zero fun h => hleast (BitVec.toNat_inj.1 h)
      exact ⟨by omega, by omega, by omega⟩

variable {m n : ℕ} {e f : ℤ}

/-- What has the larger exponent is larger. -/
theorem Canonical.lt_of_lt (hm : Canonical m e) (hn : Canonical n f) (h : e < f) :
    (m * 2 ^ e : ℚ) < n * 2 ^ f := by
  have hlt : (m : ℚ) < 2 ^ 53 := mod_cast hm.lt
  have hnormal : (2 ^ 52 : ℚ) ≤ n := mod_cast hn.normal (by have := hm.le; omega)
  calc (m * 2 ^ e : ℚ) < 2 ^ 53 * 2 ^ e := by gcongr
    _ = 2 ^ 52 * 2 ^ (e + 1) := by rw [zpow_add₀ two_ne_zero]; ring
    _ ≤ 2 ^ 52 * 2 ^ f := by gcongr; norm_num; omega
    _ ≤ n * 2 ^ f := by gcongr

/-- **Comparing by exponents first** compares the numbers. -/
theorem Canonical.compares (hm : Canonical m e) (hn : Canonical n f) :
    ((compare e f).then (compare m n)).Compares (m * 2 ^ e : ℚ) (n * 2 ^ f) := by
  rcases lt_trichotomy e f with h | rfl | h
  · rw [compare_lt_iff_lt.2 h]
    exact hm.lt_of_lt hn h
  · have hpos : (0 : ℚ) < 2 ^ e := by positivity
    rw [compare_eq_iff_eq.2 rfl, Ordering.eq_then]
    rcases lt_trichotomy m n with h | rfl | h
    · rw [compare_lt_iff_lt.2 h]
      exact mul_lt_mul_of_pos_right (mod_cast h) hpos
    · rw [compare_eq_iff_eq.2 rfl]
      exact rfl
    · rw [compare_gt_iff_gt.2 h]
      exact mul_lt_mul_of_pos_right (mod_cast h) hpos
  · rw [compare_gt_iff_gt.2 h]
    exact hn.lt_of_lt hm h

/-! ## The order -/

section

open Ordering (Compares)

variable {u v : UnpackedFloat} {p q : ℚ}

theorem compares_neg {o : Ordering} : o.Compares (-p) (-q) ↔ o.Compares q p := by
  cases o <;> simp [Compares, eq_comm]

/-- Finite floats in their form are compared as numbers. -/
theorem compare_numbers (hp : numberOf u = some p) (hq : numberOf v = some q)
    (hu : ∀ {sign m e h}, u = .finite sign m e h → Canonical m e)
    (hv : ∀ {sign m e h}, v = .finite sign m e h → Canonical m e) :
    ∃ o, u.compare v = some o ∧ o.Compares p q := by
  cases u with
  | infinity | notANumber => cases hp
  | zero sign =>
    cases hp
    cases v with
    | infinity | notANumber => cases hq
    | zero sign' =>
      cases hq
      exact ⟨.eq, rfl, rfl⟩
    | finite sign' n f hn =>
      cases hq
      have hpos : (0 : ℚ) < n * 2 ^ f := by positivity
      cases sign' with
      | negative => exact ⟨.gt, rfl, by simpa [Sign.apply] using hpos⟩
      | positive => exact ⟨.lt, rfl, by simpa [Sign.apply] using hpos⟩
  | finite sign m e hm =>
    cases hp
    have hpos : (0 : ℚ) < m * 2 ^ e := by positivity
    cases v with
    | infinity | notANumber => cases hq
    | zero sign' =>
      cases hq
      cases sign with
      | negative => exact ⟨.lt, rfl, by simpa [Sign.apply] using hpos⟩
      | positive => exact ⟨.gt, rfl, by simpa [Sign.apply] using hpos⟩
    | finite sign' n f hn =>
      cases hq
      have hpos' : (0 : ℚ) < n * 2 ^ f := by positivity
      have hlex := (hu rfl).compares (hv rfl)
      cases sign with
      | negative =>
        cases sign' with
        | negative =>
          refine ⟨_, rfl, ?_⟩
          simpa [Sign.apply, compares_neg] using Ordering.compares_swap.2 hlex
        | positive =>
          exact ⟨.lt, rfl, by simpa [Sign.apply, Compares] using (neg_neg_of_pos hpos).trans hpos'⟩
      | positive =>
        cases sign' with
        | negative =>
          exact ⟨.gt, rfl, by simpa [Sign.apply, Compares] using (neg_neg_of_pos hpos').trans hpos⟩
        | positive => exact ⟨_, rfl, by simpa [Sign.apply] using hlex⟩

/-- What takes a place on the line is an infinity or a number. -/
theorem placeOf_cases {a : Place} (h : placeOf u = some a) :
    u = .infinity .negative ∧ a = ⊥ ∨ u = .infinity .positive ∧ a = ⊤ ∨
      ∃ q, numberOf u = some q ∧ a = .ofRational q := by
  cases u with
  | notANumber => cases h
  | infinity sign =>
    cases sign with
    | negative => exact .inl ⟨rfl, (Option.some.inj h).symm⟩
    | positive => exact .inr (.inl ⟨rfl, (Option.some.inj h).symm⟩)
  | zero | finite => exact .inr (.inr ⟨_, rfl, (Option.some.inj h).symm⟩)

theorem compare_number_infinity (hp : numberOf u = some p) :
    u.compare (.infinity .negative) = some .gt ∧ u.compare (.infinity .positive) = some .lt ∧
      (UnpackedFloat.infinity .negative).compare u = some .lt ∧
      (UnpackedFloat.infinity .positive).compare u = some .gt := by
  cases u with
  | infinity | notANumber => cases hp
  | zero | finite => exact ⟨rfl, rfl, rfl, rfl⟩

variable {x y : Float} {a b : Place} {o : Ordering}

/-- **Floats are compared by their places.** -/
theorem exists_compare (ha : place? x = some a) (hb : place? y = some b) :
    ∃ o, x.toModel.unpack.compare y.toModel.unpack = some o ∧ o.Compares a b := by
  rcases placeOf_cases ha with ⟨hx, rfl⟩ | ⟨hx, rfl⟩ | ⟨p, hp, rfl⟩
  · rcases placeOf_cases hb with ⟨hy, rfl⟩ | ⟨hy, rfl⟩ | ⟨q, hq, rfl⟩
    · exact ⟨.eq, by rw [hx, hy]; rfl, rfl⟩
    · exact ⟨.lt, by rw [hx, hy]; rfl, bot_lt_top⟩
    · exact ⟨.lt, by rw [hx]; exact (compare_number_infinity hq).2.2.1, Place.bot_lt_ofRational q⟩
  · rcases placeOf_cases hb with ⟨hy, rfl⟩ | ⟨hy, rfl⟩ | ⟨q, hq, rfl⟩
    · exact ⟨.gt, by rw [hx, hy]; rfl, bot_lt_top⟩
    · exact ⟨.eq, by rw [hx, hy]; rfl, rfl⟩
    · exact ⟨.gt, by rw [hx]; exact (compare_number_infinity hq).2.2.2, Place.ofRational_lt_top q⟩
  · rcases placeOf_cases hb with ⟨hy, rfl⟩ | ⟨hy, rfl⟩ | ⟨q, hq, rfl⟩
    · exact ⟨.gt, by rw [hy]; exact (compare_number_infinity hp).1, Place.bot_lt_ofRational p⟩
    · exact ⟨.lt, by rw [hy]; exact (compare_number_infinity hp).2.1, Place.ofRational_lt_top p⟩
    · obtain ⟨o, ho, hpq⟩ := compare_numbers hp hq canonical_of_unpack canonical_of_unpack
      exact ⟨o, ho, Place.compares_ofRational.2 hpq⟩

theorem unpack_of_place?_none (h : place? x = none) : x.toModel.unpack = .notANumber := by
  unfold place? at h
  cases hx : x.toModel.unpack with
  | notANumber => rfl
  | infinity sign =>
    rw [hx] at h
    cases sign <;> cases h
  | zero | finite =>
    rw [hx] at h
    cases h

/-- What has no place is not compared with anything. -/
theorem compare_of_place?_none (h : place? x = none ∨ place? y = none) :
    x.toModel.unpack.compare y.toModel.unpack = none := by
  rcases h with h | h
  · rw [unpack_of_place?_none h]
    rfl
  · rw [unpack_of_place?_none h]
    cases x.toModel.unpack with
    | infinity sign => cases sign <;> rfl
    | notANumber | zero => rfl
    | finite sign => cases sign <;> rfl

theorem lt_iff_compare : x < y ↔ x.toModel.unpack.compare y.toModel.unpack = some .lt := by
  change decide ((x.toModel.unpack.compare y.toModel.unpack == some .lt) = true) = true ↔ _
  rw [decide_eq_true_iff, beq_iff_eq]

theorem beq_iff_compare : x == y ↔ x.toModel.unpack.compare y.toModel.unpack = some .eq := by
  change (x.toModel.unpack.compare y.toModel.unpack == some .eq) = true ↔ _
  rw [beq_iff_eq]

/-- **The order of two floats** is that of their places. -/
theorem order?_of_places (ha : place? x = some a) (hb : place? y = some b) :
    order? x y = some (cmp a b) := by
  obtain ⟨o, ho, hab⟩ := exists_compare ha hb
  obtain ⟨o', ho', hba⟩ := exists_compare hb ha
  unfold order?
  rw [hab.cmp_eq]
  simp only [lt_iff_compare, beq_iff_compare, ho, ho', Option.some.injEq]
  have hswap : o' = o.swap := by rw [← hba.cmp_eq, ← hab.cmp_eq, cmp_swap]
  subst hswap
  cases o <;> rfl

theorem order?_of_place?_none (h : place? x = none ∨ place? y = none) : order? x y = none := by
  have hxy := compare_of_place?_none h
  have hyx := compare_of_place?_none h.symm
  unfold order?
  simp only [lt_iff_compare, beq_iff_compare, hxy, hyx, reduceCtorEq, if_false]

/-- Two floats have an order if both are numbers. -/
theorem order?_eq_some :
    order? x y = some o ↔ ∃ a b, place? x = some a ∧ place? y = some b ∧ o.Compares a b := by
  constructor
  · intro h
    cases ha : place? x with
    | none =>
      rw [order?_of_place?_none (.inl ha)] at h
      cases h
    | some a =>
      cases hb : place? y with
      | none =>
        rw [order?_of_place?_none (.inr hb)] at h
        cases h
      | some b =>
        rw [order?_of_places ha hb, Option.some.injEq] at h
        exact ⟨a, b, rfl, rfl, h ▸ cmp_compares a b⟩
  · rintro ⟨a, b, ha, hb, hab⟩
    rw [order?_of_places ha hb, hab.cmp_eq]

/-- Two floats that are numbers are equal if they have the same place. -/
theorem beq_iff_places (ha : place? x = some a) (hb : place? y = some b) : x == y ↔ a = b := by
  obtain ⟨o, ho, hab⟩ := exists_compare ha hb
  rw [beq_iff_compare, ho, Option.some.injEq, ← hab.cmp_eq, cmp_eq_eq_iff]

theorem beq_of_order?_eq (h : order? x y = some .eq) : x == y := by
  obtain ⟨a, b, ha, hb, hab⟩ := order?_eq_some.1 h
  exact (beq_iff_places ha hb).2 hab

theorem place?_zero : place? 0.0 = some (.ofRational 0) := rfl

/-- **The float zero equals** the floats that denote zero, those of either sign. -/
theorem beq_zero_iff : x == 0.0 ↔ rational? x = some 0 := by
  cases ha : place? x with
  | none =>
    rw [beq_iff_compare, compare_of_place?_none (.inl ha), rational?, unpack_of_place?_none ha]
    simp [numberOf]
  | some a =>
    rw [beq_iff_places ha place?_zero, ← place?_eq_ofRational, ha, Option.some.injEq]

end

/-! ## Whole numbers -/

section

variable {m : ℕ} {e z : ℤ} {x : Float}

/-- A significand with an exponent is the integer `z` if no digit stands behind the point and those
before it are `z`. -/
theorem isInteger_and_integerPart :
    isInteger m e ∧ (integerPart m e : ℤ) = z ↔ (m * 2 ^ e : ℚ) = z := by
  unfold isInteger integerPart
  by_cases he : 0 ≤ e
  · obtain ⟨k, rfl⟩ := Int.eq_ofNat_of_zero_le he
    simp only [he, if_true, decide_true, Bool.true_or, true_and, Int.toNat_natCast,
      Nat.shiftLeft_eq, zpow_natCast]
    exact_mod_cast Iff.rfl
  · obtain ⟨k, hk⟩ := Int.eq_ofNat_of_zero_le (show 0 ≤ -e by omega)
    obtain rfl : e = -k := by omega
    have hpos : (0 : ℤ) < 2 ^ k := by positivity
    have hnumber : (m * 2 ^ (-(k : ℤ)) : ℚ) = z ↔ (m : ℤ) = z * 2 ^ k := by
      rw [zpow_neg, zpow_natCast, ← div_eq_mul_inv, div_eq_iff (by positivity)]
      exact_mod_cast Iff.rfl
    simp only [he, if_false, decide_false, Bool.false_or, neg_neg, Int.toNat_natCast,
      Nat.shiftLeft_eq, one_mul, Nat.shiftRight_eq_div_pow, beq_iff_eq, hnumber]
    rw [← Int.natCast_inj (m := m % 2 ^ k)]
    push_cast
    constructor
    · rintro ⟨hrest, rfl⟩
      exact (Int.ediv_mul_cancel (Int.dvd_of_emod_eq_zero hrest)).symm
    · intro h
      rw [h, Int.mul_emod_left, Int.mul_ediv_cancel _ hpos.ne']
      exact ⟨rfl, rfl⟩

/-- **A float denotes an integer** if it has no fraction and cutting one off gives that integer. -/
theorem rational?_eq_intCast : rational? x = some (z : ℚ) ↔ isWhole x ∧ truncate? x = some z := by
  unfold rational? isWhole truncate?
  cases x.toModel.unpack with
  | infinity | notANumber => simp [numberOf]
  | zero sign => simp [numberOf, eq_comm]
  | finite sign m e h =>
    simp only [numberOf, Option.some.injEq]
    cases sign with
    | positive => exact isInteger_and_integerPart.symm
    | negative =>
      simp only [Sign.apply, neg_eq_iff_eq_neg, isInteger_and_integerPart]
      push_cast
      rw [neg_mul, neg_eq_iff_eq_neg]

end

end ReversePolish.Binary64
