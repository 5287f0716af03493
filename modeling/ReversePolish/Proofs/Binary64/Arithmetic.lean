import ReversePolish.Number.Arithmetic
import ReversePolish.Proofs.Binary64.Integers
/-!
# Arithmetic on floats

A sum, a difference, a product and a quotient of finite floats are the exact ones, rounded once:
each is the float nearest to the exact result (`Operation.onFloats_nearest`). The modulo is put
together from three of them and rounds at every step.

Sums are exact before they are rounded, as the significands are integers once both have the lesser
exponent. So are products. A quotient is cut off, and its remainder tells what was behind it.
-/

namespace ReversePolish

namespace Binary64

open Float.Model (UnpackedFloat Format totalExponent)
open Float.Model.UnpackedFloat

variable {m n : ℕ} {e f : ℤ} {p q r : ℚ} {s t : Sign} {x y : Float}

/-! ## Finite floats -/

/-- What a float is made of that denotes a number. -/
theorem unpack_of_rational? (h : rational? x = some q) :
    (∃ s, x.toModel.unpack = .zero s ∧ q = 0) ∨
      ∃ s m e hm, x.toModel.unpack = .finite s m e hm ∧ q = s.apply 1 * (m * 2 ^ e) := by
  unfold rational? at h
  cases hx : x.toModel.unpack with
  | infinity | notANumber =>
    rw [hx] at h
    cases h
  | zero s =>
    rw [hx] at h
    cases h
    exact .inl ⟨s, rfl, rfl⟩
  | finite s m e hm =>
    rw [hx] at h
    cases h
    exact .inr ⟨s, m, e, hm, rfl, by cases s <;> simp [Sign.apply]⟩

theorem rational?_of_unpack {hm : 0 < m} (h : x.toModel.unpack = .finite s m e hm) :
    rational? x = some (s.apply 1 * (m * 2 ^ e : ℚ)) := by
  rw [rational?, h]
  cases s <;> simp [numberOf, Sign.apply]

/-- A float has no digits that need rounding. -/
theorem rounded_of_unpack {hm : 0 < m} (h : x.toModel.unpack = .finite s m e hm) :
    rounded (m * 2 ^ e) = m * 2 ^ e := by
  have hpos : (0 : ℚ) < m * 2 ^ e := by positivity
  have hself {y : Float} (hy : rational? y = some (m * 2 ^ e : ℚ)) :
      rounded (m * 2 ^ e) = m * 2 ^ e := by
    have hnear := abs_rounded_sub_le hpos hy
    rwa [sub_self, abs_zero, abs_nonpos_iff, sub_eq_zero] at hnear
  have hx := rational?_of_unpack h
  cases s with
  | positive => exact hself (by simpa [Sign.apply] using hx)
  | negative => exact hself (by simpa [Sign.apply] using rational?_neg hx)

/-- **A float is the one nearest to its own number.** -/
theorem isNearestTo_of_rational? (h : rational? x = some q) : IsNearestTo q x := by
  rcases unpack_of_rational? h with ⟨s, hx, rfl⟩ | ⟨s, m, e, hm, hx, rfl⟩
  · have hnearest : IsNearest s 0 x := by
      unfold IsNearest
      rw [hx]
      exact ⟨rfl, rounded_zero⟩
    simpa using hnearest.isNearestTo le_rfl
  · have hrounded := rounded_of_unpack hx
    have hsmall : (m * 2 ^ e : ℚ) < overflow := by
      by_contra hlarge
      have hle := le_rounded (not_lt.1 hlarge)
      rw [hrounded] at hle
      exact hle.not_gt ((canonical_of_unpack hx).lt_iff.2 (le_of_unpack hx))
    have hnearest : IsNearest s (m * 2 ^ e) x := by
      unfold IsNearest
      rw [hx]
      exact ⟨rfl, hsmall, hrounded.symm⟩
    exact hnearest.isNearestTo (by positivity)

theorem isNearestTo_pack_unpack (h : rational? x = some q) :
    IsNearestTo q (.ofModel (.pack x.toModel.unpack)) := by
  rw [rational?, ← unpack_pack_unpack x] at h
  exact isNearestTo_of_rational? h

/-! ## Sums and differences -/

/-- Zeros behind a significand make up for a lesser exponent. -/
theorem signed_shiftLeft (s : Sign) (m : ℕ) (h : f ≤ e) :
    (s.apply (m <<< (e - f).toNat : ℕ) * 2 ^ f : ℚ) = s.apply 1 * (m * 2 ^ e) := by
  have hshift : ((m <<< (e - f).toNat : ℕ) * 2 ^ f : ℚ) = m * 2 ^ e := by
    rw [Nat.shiftLeft_eq, Nat.cast_mul, Nat.cast_pow, Nat.cast_ofNat, mul_assoc, ← zpow_natCast,
      Int.toNat_of_nonneg (by omega), ← zpow_add₀ two_ne_zero, sub_add_cancel]
  cases s <;>
    simp only [Sign.apply, Int.cast_neg, Int.cast_natCast, Int.cast_one, neg_mul, one_mul, hshift]

/-- **A sum of floats** is the float nearest to the sum of the numbers. -/
theorem isNearestTo_add (hx : rational? x = some p) (hy : rational? y = some q) :
    IsNearestTo (p + q) (x + y) := by
  have hsum : x + y
      = .ofModel (.pack (add .binary64 x.toModel.unpack y.toModel.unpack)) := rfl
  rcases unpack_of_rational? hx with ⟨s, hux, rfl⟩ | ⟨s, m, e, hm, hux, hp⟩
  · rw [zero_add]
    rcases unpack_of_rational? hy with ⟨t, huy, rfl⟩ | ⟨t, n, f, hn, huy, hq⟩
    · rw [hsum, hux, huy, add]
      split <;> exact isNearestTo_zero _
    · have hnearest := isNearestTo_pack_unpack hy
      rw [hsum, hux, huy]
      rwa [huy] at hnearest
  · rcases unpack_of_rational? hy with ⟨t, huy, rfl⟩ | ⟨t, n, f, hn, huy, hq⟩
    · rw [add_zero]
      have hnearest := isNearestTo_pack_unpack hx
      rw [hsum, hux, huy]
      rwa [hux] at hnearest
    · have hnearest := isNearestTo_normalize
        (s.apply (m <<< (e - min e f).toNat : ℕ) + t.apply (n <<< (f - min e f).toNat : ℕ))
        (min e f)
      rw [Int.cast_add, add_mul, signed_shiftLeft s m (min_le_left e f),
        signed_shiftLeft t n (min_le_right e f), ← hp, ← hq] at hnearest
      rw [hsum, hux, huy]
      exact hnearest

theorem sub_eq_add (u v : UnpackedFloat) : sub .binary64 u v = add .binary64 u v.neg := by
  cases u with
  | finite s m e hm =>
    cases v with
    | finite t n f hn =>
      have hneg (k : ℤ) : (-t).apply k = -t.apply k := by
        cases t with
        | negative => exact (neg_neg k).symm
        | positive => rfl
      simp only [sub, add, UnpackedFloat.neg, hneg, sub_eq_add_neg]
    | notANumber | infinity | zero => rfl
  | notANumber | infinity | zero => cases v <;> rfl

/-- **A difference of floats** is the float nearest to the difference of the numbers. -/
theorem isNearestTo_sub (hx : rational? x = some p) (hy : rational? y = some q) :
    IsNearestTo (p - q) (x - y) := by
  have hdifference : x - y = x + -y := by
    change Float.ofModel (.pack (sub .binary64 _ _)) = .ofModel (.pack (add .binary64 _ _))
    rw [sub_eq_add, unpack_neg]
  rw [hdifference, sub_eq_add_neg]
  exact isNearestTo_add hx (rational?_neg hy)

/-! ## Products and quotients -/

theorem le_lastDigit_of_le (h : 2 ^ 52 ≤ m) : e ≤ lastDigit (m * 2 ^ e) := by
  refine le_lastDigit ?_
  gcongr
  exact_mod_cast h

/-- The product of two significands has digits enough to be rounded. -/
theorem Canonical.add_le_lastDigit (hm : Canonical m e) (hn : Canonical n f) (hpos : 0 < m)
    (hpos' : 0 < n) : e + f ≤ lastDigit ((m * n : ℕ) * 2 ^ (e + f)) := by
  by_cases hlong : 2 ^ 52 ≤ m * n
  · exact le_lastDigit_of_le hlong
  · -- a short product is one of short factors
    have hle : m ≤ m * n := Nat.le_mul_of_pos_right m hpos'
    have hle' : n ≤ m * n := Nat.le_mul_of_pos_left n hpos
    have he : ¬-1074 < e := fun h => by have := hm.normal h; omega
    have hf : ¬-1074 < f := fun h => by have := hn.normal h; omega
    exact le_trans (by omega) (le_max_right _ _)

theorem isRounded_mul (hm : 0 < m) (hn : 0 < n)
    (h : e + f ≤ lastDigit ((m * n : ℕ) * 2 ^ (e + f))) :
    IsRounded (s * t) (m * 2 ^ e * (n * 2 ^ f))
      (mul .binary64 (.finite s m e hm) (.finite t n f hn)) := by
  have hvalue : (m * 2 ^ e * (n * 2 ^ f) : ℚ) = (m * n : ℕ) * 2 ^ (e + f) := by
    rw [zpow_add₀ two_ne_zero]
    push_cast
    ring
  rw [hvalue]
  refine isRounded_roundWithAccuracy _ (by positivity) ?_ h
  rw [mul_div_cancel_right₀ _ (by positivity)]
  exact .exact (m * n)

/-- A quotient with its remainder tells all about the fraction that it takes to round it. -/
theorem represents_div (hn : 0 < n) :
    Represents (.ofMantissaAndAccuracy (m / n) (accuracyOfFraction (m % n) n)) (m / n : ℚ) := by
  have hpos : (0 : ℚ) < n := mod_cast hn
  have hrest : ((m % n : ℕ) : ℚ) < n := mod_cast Nat.mod_lt m hn
  have hdivision : (m : ℚ) = n * (m / n : ℕ) + (m % n : ℕ) := mod_cast (Nat.div_add_mod m n).symm
  have hsplit : (m / n : ℚ) = (m / n : ℕ) + (m % n : ℕ) / n := by
    rw [div_eq_iff hpos.ne', add_mul, div_mul_cancel₀ _ hpos.ne', mul_comm, ← hdivision]
  rw [hsplit]
  unfold accuracyOfFraction
  split
  · next hzero =>
    rw [hzero, Nat.cast_zero, zero_div, add_zero]
    exact .exact (m / n)
  · next hzero =>
    have hpositive : (0 : ℚ) < (m % n : ℕ) := mod_cast Nat.pos_of_ne_zero hzero
    rcases lt_trichotomy (2 * (m % n)) n with h | h | h
    · have hhalf : (2 * (m % n : ℕ) : ℚ) < n := mod_cast h
      rw [compare_lt_iff_lt.2 h]
      refine ⟨lt_add_of_pos_right _ (by positivity), (add_lt_add_iff_left _).2 ?_⟩
      rw [div_lt_iff₀ hpos]
      linarith
    · have hhalf : (2 * (m % n : ℕ) : ℚ) = n := mod_cast h
      rw [compare_eq_iff_eq.2 h]
      refine congrArg _ ?_
      rw [div_eq_iff hpos.ne']
      linarith
    · have hhalf : (n : ℚ) < 2 * (m % n : ℕ) := mod_cast h
      rw [compare_gt_iff_gt.2 h]
      refine ⟨(add_lt_add_iff_left _).2 ?_, (add_lt_add_iff_left _).2 ?_⟩
      · rw [lt_div_iff₀ hpos]
        linarith
      · rwa [div_lt_one hpos]

/-- A quotient has as many digits before its point as the operands tell, or one less. -/
theorem le_log_quotient (hm : 0 < m) (hn : 0 < n) :
    totalExponent m e - totalExponent n f - 1 ≤ Int.log 2 (m * 2 ^ e / (n * 2 ^ f) : ℚ) := by
  refine (Int.zpow_le_iff_le_log (b := 2) one_lt_two (by positivity)).1 ?_
  have hlower : (2 ^ m.log2 : ℚ) ≤ m := mod_cast Nat.log2_self_le hm.ne'
  have hupper : (n : ℚ) ≤ 2 ^ (n.log2 + 1) := mod_cast Nat.lt_log2_self.le
  have hexponent : totalExponent m e - totalExponent n f - 1
      = m.log2 + e - ((n.log2 + 1 : ℕ) + f) := by
    unfold totalExponent
    push_cast
    ring
  rw [hexponent, Nat.cast_ofNat, zpow_sub₀ two_ne_zero, zpow_add₀ two_ne_zero,
    zpow_add₀ two_ne_zero, zpow_natCast, zpow_natCast]
  gcongr

theorem isRounded_div (hm : 0 < m) (hn : 0 < n) :
    IsRounded (s / t) (m * 2 ^ e / (n * 2 ^ f))
      (div .binary64 (.finite s m e hm) (.finite t n f hn)) := by
  have hpos : (0 : ℚ) < n := mod_cast hn
  have hquotient : (0 : ℚ) < m * 2 ^ e / (n * 2 ^ f) := by positivity
  obtain ⟨target, htarget⟩ : ∃ target, target = min (e - f)
      (Format.binary64.targetExponent (totalExponent m e - totalExponent n f)) := ⟨_, rfl⟩
  have hdiv : div .binary64 (.finite s m e hm) (.finite t n f hn)
      = roundWithAccuracy .binary64 (s / t) (m <<< (e - f - target).toNat / n) target
        (accuracyOfFraction (m <<< (e - f - target).toNat % n) n) := by
    rw [htarget]
    rfl
  rw [targetExponent_eq] at htarget
  have hscaled : (m * 2 ^ e / (n * 2 ^ f) / 2 ^ target : ℚ)
      = (m <<< (e - f - target).toNat : ℕ) / n := by
    have hshift : (2 ^ (e - f - target).toNat : ℚ) = 2 ^ e / 2 ^ f / 2 ^ target := by
      rw [← zpow_natCast, Int.toNat_of_nonneg (by omega), zpow_sub₀ two_ne_zero,
        zpow_sub₀ two_ne_zero]
    rw [Nat.shiftLeft_eq, Nat.cast_mul, Nat.cast_pow, Nat.cast_ofNat, hshift]
    field_simp
  rw [hdiv]
  refine isRounded_roundWithAccuracy _ hquotient ?_ ?_
  · rw [hscaled]
    exact represents_div hn
  · have hlog := le_log_quotient (e := e) (f := f) hm hn
    unfold lastDigit
    omega

theorem isNearest_mul {hm : 0 < m} {hn : 0 < n} (hx : x.toModel.unpack = .finite s m e hm)
    (hy : y.toModel.unpack = .finite t n f hn) :
    IsNearest (s * t) (m * 2 ^ e * (n * 2 ^ f)) (x * y) := by
  have hrounded : IsRounded (s * t) (m * 2 ^ e * (n * 2 ^ f))
      (mul .binary64 (.finite s m e hm) (.finite t n f hn)) :=
    isRounded_mul hm hn
      ((canonical_of_unpack hx).add_le_lastDigit (canonical_of_unpack hy) hm hn)
  rw [← hx, ← hy] at hrounded
  exact hrounded.pack (by positivity)

theorem isNearest_div {hm : 0 < m} {hn : 0 < n} (hx : x.toModel.unpack = .finite s m e hm)
    (hy : y.toModel.unpack = .finite t n f hn) :
    IsNearest (s / t) (m * 2 ^ e / (n * 2 ^ f)) (x / y) := by
  have hrounded : IsRounded (s / t) (m * 2 ^ e / (n * 2 ^ f))
      (div .binary64 (.finite s m e hm) (.finite t n f hn)) := isRounded_div hm hn
  rw [← hx, ← hy] at hrounded
  exact hrounded.pack (by positivity)

theorem apply_mul (s t : Sign) : ((s * t).apply 1 : ℚ) = s.apply 1 * t.apply 1 := by
  rw [← Int.cast_mul]
  cases s <;> cases t <;> rfl

theorem apply_div (s t : Sign) : ((s / t).apply 1 : ℚ) = s.apply 1 / t.apply 1 := by
  have hdiv : s / t = s * t := by cases s <;> cases t <;> rfl
  have hinv : (t.apply 1 : ℚ)⁻¹ = t.apply 1 := by cases t <;> simp [Sign.apply]
  rw [hdiv, apply_mul, div_eq_mul_inv, hinv]

/-- **A product of floats** is the float nearest to the product of the numbers. -/
theorem isNearestTo_mul (hx : rational? x = some p) (hy : rational? y = some q) :
    IsNearestTo (p * q) (x * y) := by
  have hproduct : x * y
      = .ofModel (.pack (mul .binary64 x.toModel.unpack y.toModel.unpack)) := rfl
  rcases unpack_of_rational? hx with ⟨s, hux, rfl⟩ | ⟨s, m, e, hm, hux, rfl⟩
  · rw [zero_mul]
    rcases unpack_of_rational? hy with ⟨t, huy, -⟩ | ⟨t, n, f, hn, huy, -⟩ <;>
      · rw [hproduct, hux, huy]
        exact isNearestTo_zero (s * t)
  · rcases unpack_of_rational? hy with ⟨t, huy, rfl⟩ | ⟨t, n, f, hn, huy, rfl⟩
    · rw [mul_zero, hproduct, hux, huy]
      exact isNearestTo_zero (s * t)
    · rw [mul_mul_mul_comm, ← apply_mul]
      exact (isNearest_mul hux huy).isNearestTo (by positivity)

/-- **A quotient of floats** is the float nearest to the quotient of the numbers. -/
theorem isNearestTo_div (hx : rational? x = some p) (hy : rational? y = some q) (hne : q ≠ 0) :
    IsNearestTo (p / q) (x / y) := by
  have hquotient : x / y
      = .ofModel (.pack (div .binary64 x.toModel.unpack y.toModel.unpack)) := rfl
  rcases unpack_of_rational? hy with ⟨t, -, rfl⟩ | ⟨t, n, f, hn, huy, rfl⟩
  · exact absurd rfl hne
  · rcases unpack_of_rational? hx with ⟨s, hux, rfl⟩ | ⟨s, m, e, hm, hux, rfl⟩
    · rw [zero_div, hquotient, hux, huy]
      exact isNearestTo_zero (s / t)
    · rw [mul_div_mul_comm, ← apply_div]
      exact (isNearest_div hux huy).isNearestTo (by positivity)

end Binary64

/-! ## Operations -/

namespace Operation

/-- The exact result of an operation that rounds once. -/
def onRationals? (op : Operation) (p q : ℚ) : Option ℚ :=
  match op with
  | .add => some (p + q)
  | .sub => some (p - q)
  | .mul => some (p * q)
  | .div => some (p / q)
  | .mod => none

/-- **Float arithmetic is exact but for one rounding.** On finite floats an operation fails if it
divides by zero. Otherwise it succeeds, and a sum, a difference, a product or a quotient is the
float nearest to the exact one. -/
theorem onFloats_nearest (op : Operation) {x y : Float} {p q : ℚ}
    (hx : Binary64.rational? x = some p) (hy : Binary64.rational? y = some q) :
    (op.divides = true → q = 0 → op.onFloats x y = .error .divideByZero) ∧
      ((op.divides = true → q ≠ 0) → ∃ z, op.onFloats x y = .ok z ∧
        ∀ r, op.onRationals? p q = some r → Binary64.IsNearestTo r z) := by
  have hzero : (y == 0.0) = decide (q = 0) := by
    rw [Bool.eq_iff_iff, Binary64.beq_zero_iff, hy, decide_eq_true_eq, Option.some_inj]
  have hfinite : y.isFinite = true := Binary64.isFinite_iff.2 ⟨q, hy⟩
  constructor
  · intro hdivides hq
    unfold onFloats
    rw [hzero, hdivides, decide_eq_true hq]
    rfl
  · intro hne
    cases op with
    | add => exact ⟨x + y, rfl, fun r hr => Option.some.inj hr ▸ Binary64.isNearestTo_add hx hy⟩
    | sub => exact ⟨x - y, rfl, fun r hr => Option.some.inj hr ▸ Binary64.isNearestTo_sub hx hy⟩
    | mul => exact ⟨x * y, rfl, fun r hr => Option.some.inj hr ▸ Binary64.isNearestTo_mul hx hy⟩
    | div =>
      refine ⟨x / y, ?_, fun r hr => ?_⟩
      · rw [onFloats, hzero, hfinite, decide_eq_false (hne rfl)]
        rfl
      · exact Option.some.inj hr ▸ Binary64.isNearestTo_div hx hy (hne rfl)
    | mod =>
      refine ⟨x - (x / y).floor * y, ?_, fun r hr => ?_⟩
      · rw [onFloats, hzero, hfinite, decide_eq_false (hne rfl)]
        rfl
      · cases hr

/-- No finite float is nearer to the exact result than the one that an operation gives. -/
theorem abs_sub_le_of_onFloats {op : Operation} {x y z other : Float} {p q t r u : ℚ}
    (hx : Binary64.rational? x = some p) (hy : Binary64.rational? y = some q)
    (hexact : op.onRationals? p q = some t) (hop : op.onFloats x y = .ok z)
    (hz : Binary64.rational? z = some r) (hother : Binary64.rational? other = some u) :
    |r - t| ≤ |u - t| := by
  obtain ⟨hrefused, hnearest⟩ := onFloats_nearest op hx hy
  have hne : op.divides = true → q ≠ 0 := by
    intro hdivides hq
    rw [hrefused hdivides hq] at hop
    cases hop
  obtain ⟨z', hop', hnear⟩ := hnearest hne
  obtain rfl : z' = z := Except.ok.inj (hop'.symm.trans hop)
  exact (hnear t hexact).abs_sub_le hz hother

end Operation

end ReversePolish
