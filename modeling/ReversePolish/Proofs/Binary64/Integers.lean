import ReversePolish.Proofs.Binary64.Nearest
/-!
# Integers as floats

An integer is converted to the nearest float. What has more than 53 binary digits is rounded to that
many, and of two floats that are equally near it becomes the one with the even significand
(`rational?_ofInt`). So beyond 2^53 several integers share a float. But a larger integer never
becomes a smaller float (`nearest_mono`), which is why exact comparisons of integers and comparisons
through floats can be chained.
-/

namespace ReversePolish.Binary64

open Float.Model (UnpackedFloat Format totalExponent)
open Float.Model.UnpackedFloat

/-! ## The nearest float -/

/-- The exponent of the last digit of the float nearest to `n`. -/
def lastPlace (n : ℕ) : ℤ := n.log2 - 52

/-- The float nearest to `n`, as a number. -/
def nearest (n : ℕ) : ℚ := nearestEven (n / 2 ^ lastPlace n) * 2 ^ lastPlace n

@[simp] theorem nearest_zero : nearest 0 = 0 := by
  simp [nearest, nearestEven]

variable {m n : ℕ} {e : ℤ}

theorem log_natCast_mul (hn : 0 < n) (e : ℤ) : Int.log 2 (n * 2 ^ e : ℚ) = n.log2 + e := by
  have hle : (2 ^ n.log2 : ℚ) ≤ n := mod_cast Nat.log2_self_le hn.ne'
  have hlt : (n : ℚ) < 2 ^ (n.log2 + 1) := mod_cast Nat.lt_log2_self
  refine log_eq_of_bounds ?_ ?_
  · rw [two_zpow_add]
    gcongr
  · have hexponent : (n.log2 + e + 1 : ℤ) = (n.log2 + 1 : ℕ) + e := by
      push_cast
      ring
    rw [hexponent, two_zpow_add]
    gcongr

/-- A natural number has its last digit where it is long enough for a float. -/
theorem nearest_eq_rounded (hn : 0 < n) : nearest n = rounded n := by
  have hplace : lastDigit n = lastPlace n := by
    have hlog := log_natCast_mul hn 0
    rw [zpow_zero, mul_one] at hlog
    unfold lastDigit lastPlace
    omega
  rw [nearest, rounded, hplace]

theorem nearest_nonneg (n : ℕ) : 0 ≤ nearest n := by
  rcases n.eq_zero_or_pos with rfl | hn
  · simp
  · rw [nearest_eq_rounded hn]
    exact rounded_nonneg (by positivity)

/-- **Rounding keeps the order** of natural numbers. -/
theorem nearest_mono : Monotone nearest := by
  intro m n hmn
  rcases m.eq_zero_or_pos with rfl | hm
  · simpa using nearest_nonneg n
  · rw [nearest_eq_rounded hm, nearest_eq_rounded (hm.trans_le hmn)]
    exact rounded_mono (by positivity) (by gcongr)

/-- A natural number with at most 53 digits is a float. -/
theorem nearest_of_lt (h : n < 2 ^ 53) : nearest n = n := by
  rcases n.eq_zero_or_pos with rfl | hn
  · exact nearest_zero
  have hlog : n.log2 < 53 := (Nat.log2_lt hn.ne').2 h
  have hscaled : (n / 2 ^ lastPlace n : ℚ) = ((n * 2 ^ (52 - n.log2) : ℕ) : ℤ) := by
    have hplace : lastPlace n = -((52 - n.log2 : ℕ) : ℤ) := by
      unfold lastPlace
      omega
    rw [hplace, zpow_neg, zpow_natCast, div_inv_eq_mul]
    push_cast
    rfl
  rw [nearest, hscaled, nearestEven_intCast, ← hscaled, div_mul_cancel₀ _ (by positivity)]

/-! ## The conversion -/

/-- **Rounding** a significand that is given zeros behind its digits, or shortened. -/
theorem isRounded_round (sign : Sign) (hn : 0 < n) (e : ℤ) :
    IsRounded sign (n * 2 ^ e) (UnpackedFloat.round .binary64 sign n e) := by
  have htarget : max (totalExponent n e - 53) (-1074) = lastDigit (n * 2 ^ e) := by
    rw [lastDigit, log_natCast_mul hn, totalExponent]
    omega
  have hscaled (k : ℕ) : (n * 2 ^ e / 2 ^ (e - k) : ℚ) = (n <<< k : ℕ) := by
    rw [Nat.shiftLeft_eq, zpow_sub₀ two_ne_zero, zpow_natCast]
    push_cast
    field_simp
  unfold UnpackedFloat.round decreaseExponent
  rw [targetExponent_eq, htarget]
  refine isRounded_roundWithAccuracy sign (by positivity) ?_ (by omega)
  rw [hscaled]
  exact .exact _

/-- An integer before an exponent is rounded once. -/
theorem isNearestTo_normalize (z : ℤ) (e : ℤ) :
    IsNearestTo (z * 2 ^ e)
      (.ofModel (.pack (UnpackedFloat.normalize .binary64 z e .positive))) := by
  have hround (sign : Sign) (hz : 0 < z.natAbs) (hsign : (z : ℚ) = sign.apply 1 * z.natAbs) :
      IsNearestTo (z * 2 ^ e)
        (.ofModel (.pack (UnpackedFloat.round .binary64 sign z.natAbs e))) := by
    rw [hsign, mul_assoc]
    exact ((isRounded_round sign hz e).pack (by positivity)).isNearestTo (by positivity)
  unfold UnpackedFloat.normalize
  rcases lt_trichotomy z 0 with hz | rfl | hz
  · have habs : (-z).toNat = z.natAbs := by omega
    rw [compare_lt_iff_lt.2 hz, habs]
    exact hround .negative (by omega) (by simp [Sign.apply, abs_of_neg hz])
  · simpa using isNearestTo_zero .positive
  · have habs : z.toNat = z.natAbs := by omega
    rw [compare_gt_iff_gt.2 hz, habs]
    exact hround .positive (by omega) (by simp [Sign.apply, abs_of_pos hz])

/-- The number that the float nearest to an integer denotes. -/
def nearestInt (z : ℤ) : ℚ := z.sign * nearest z.natAbs

/-- **Rounding keeps the order** of integers. -/
theorem nearestInt_mono : Monotone nearestInt := by
  intro a b hab
  unfold nearestInt
  rcases lt_trichotomy a 0 with ha | rfl | ha
  · rcases lt_trichotomy b 0 with hb | rfl | hb
    · have hle := nearest_mono (show b.natAbs ≤ a.natAbs by omega)
      simpa [Int.sign_eq_neg_one_of_neg ha, Int.sign_eq_neg_one_of_neg hb] using hle
    · simpa [Int.sign_eq_neg_one_of_neg ha] using nearest_nonneg _
    · have hle := nearest_nonneg a.natAbs
      have hle' := nearest_nonneg b.natAbs
      simp only [Int.sign_eq_neg_one_of_neg ha, Int.sign_eq_one_of_pos hb]
      push_cast
      linarith
  · have hle := nearest_nonneg b.natAbs
    have hsign : (0 : ℚ) ≤ b.sign := mod_cast Int.sign_nonneg_iff.2 hab
    simp only [Int.sign_zero, Int.cast_zero, zero_mul]
    positivity
  · have hle := nearest_mono (show a.natAbs ≤ b.natAbs by omega)
    simpa [Int.sign_eq_one_of_pos ha, Int.sign_eq_one_of_pos (ha.trans_le hab)] using hle

theorem natCast_lt_overflow (h : n ≤ 2 ^ 64) : (n : ℚ) < overflow := by
  calc (n : ℚ) ≤ 2 ^ 64 := mod_cast h
    _ < (2 ^ 53 - 1 / 2) * 2 ^ (12 : ℤ) := by norm_num
    _ ≤ (2 ^ 53 - 1 / 2) * 2 ^ (971 : ℤ) := by
      gcongr
      · norm_num
      · norm_num
    _ = overflow := overflow_eq.symm

/-- **An integer becomes the nearest float.** -/
theorem rational?_ofInt {z : ℤ} (h : z.natAbs ≤ 2 ^ 64) :
    rational? (ofInt z) = some (nearestInt z) := by
  have hnearest := isNearestTo_normalize z 0
  rw [zpow_zero, mul_one] at hnearest
  obtain ⟨sign, hsign, hnearest⟩ : IsNearestTo z (ofInt z) := hnearest
  rw [← Int.cast_abs, ← Nat.cast_natAbs] at hsign hnearest
  rw [hnearest.rational? (natCast_lt_overflow h), nearestInt]
  rcases z.natAbs.eq_zero_or_pos with hzero | hpos
  · simp [hzero]
  · have hne : (z.natAbs : ℚ) ≠ 0 := by positivity
    have hvalue : (z.sign * (z.natAbs : ℤ) : ℚ) = z := mod_cast Int.sign_mul_natAbs z
    have hsame : (sign.apply 1 : ℚ) = z.sign :=
      mul_right_cancel₀ hne (hsign.symm.trans hvalue.symm)
    rw [nearest_eq_rounded hpos, hsame]

end ReversePolish.Binary64
