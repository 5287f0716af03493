import ReversePolish.Proofs.Binary64.Arithmetic
/-!
# Decimal numbers as floats

A decimal number `m · 10^e` is read as the float nearest to it, however many digits it has
(`isNearest_ofDecimal`). If both the significand and the power of ten are short, each of them is a
float, and one rounded multiplication or division gives the result. The others are multiplied out or
divided as integers and rounded once.
-/

namespace ReversePolish.Binary64

open Float.Model.UnpackedFloat

variable {m : ℕ} {e : ℤ} {q : ℚ} {x : Float}

/-! ## Decimal numbers -/

theorem exists_unpack_of_rational? (h : rational? x = some q) (hq : 0 < q) :
    ∃ m e hm, x.toModel.unpack = .finite .positive m e hm ∧ (m * 2 ^ e : ℚ) = q := by
  rcases unpack_of_rational? h with ⟨s, -, rfl⟩ | ⟨s, m, e, hm, hx, rfl⟩
  · exact absurd hq (lt_irrefl 0)
  · cases s with
    | positive => exact ⟨m, e, hm, hx, by simp [Sign.apply]⟩
    | negative =>
      have hpos : (0 : ℚ) < m * 2 ^ e := by positivity
      simp only [Sign.apply, Int.cast_neg, Int.cast_one, neg_mul, one_mul] at hq
      linarith

theorem rational?_toFloat (h : m < 2 ^ 53) : rational? m.toUInt64.toFloat = some (m : ℚ) := by
  have hword : m.toUInt64.toNat = m := by
    rw [Nat.toUInt64_eq, UInt64.toNat_ofNat', Nat.mod_eq_of_lt (by omega)]
  have hfloat : m.toUInt64.toFloat = ofInt m := by
    change ofInt m.toUInt64.toNat = ofInt m
    rw [hword]
  rw [hfloat, rational?_ofInt (by omega), nearestInt, Int.natAbs_natCast, nearest_of_lt h]
  rcases m.eq_zero_or_pos with rfl | hm
  · simp
  · simp [Int.sign_eq_one_of_pos (Int.natCast_pos.2 hm)]

theorem rational?_powersOfTen (k : Fin 23) :
    rational? Float.exactlyRepresentablePowersOfTen[k] = some ((10 ^ k.val : ℤ) : ℚ) := by
  rw [rational?_eq_intCast]
  revert k
  decide

/-- What is too small is rounded to zero. -/
theorem rounded_eq_zero (hq : 0 < q) (h : q < 2 ^ (-1075 : ℤ)) : rounded q = 0 := by
  have hlog : Int.log 2 q < -1075 := (Int.lt_zpow_iff_log_lt (b := 2) one_lt_two hq).1 (mod_cast h)
  have hplace : lastDigit q = -1074 := by
    unfold lastDigit
    omega
  have hscaled : q / 2 ^ (-1074 : ℤ) < 1 / 2 := by
    have hhalf : (2 ^ (-1074 : ℤ) : ℚ) = 2 ^ 1 * 2 ^ (-1075 : ℤ) := by rw [← two_zpow_add]; rfl
    rw [div_lt_iff₀ (by positivity), hhalf]
    linarith
  rw [rounded, hplace, nearestEven_eq_zero (by positivity) hscaled, Int.cast_zero, zero_mul]

/-- A decimal number with a short significand and a short exponent is computed with floats. -/
theorem isNearest_short {k : ℕ} (hm : m < 2 ^ 53)
    (hk : k < Float.exactlyRepresentablePowersOfTen.size) :
    let power := Float.exactlyRepresentablePowersOfTen[k]
    IsNearest .positive (m * 10 ^ k) (m.toUInt64.toFloat * power) ∧
      IsNearest .positive (m / 10 ^ k) (m.toUInt64.toFloat / power) := by
  intro power
  have hpower : rational? power = some ((10 ^ k : ℤ) : ℚ) := rational?_powersOfTen ⟨k, hk⟩
  obtain ⟨n, f, hn, hunpack, hvalue⟩ := exists_unpack_of_rational? hpower (by positivity)
  have hten : (n * 2 ^ f : ℚ) = 10 ^ k := by
    rw [hvalue]
    norm_cast
  rcases m.eq_zero_or_pos with rfl | hpos
  · have hzero : (0 : ℕ).toUInt64.toFloat.toModel.unpack = .zero .positive := rfl
    have hmul : (0 : ℕ).toUInt64.toFloat * power = .ofModel (.pack (.zero .positive)) := by
      change Float.ofModel (.pack (mul .binary64 _ _)) = _
      rw [hzero, hunpack]
      rfl
    have hdiv : (0 : ℕ).toUInt64.toFloat / power = .ofModel (.pack (.zero .positive)) := by
      change Float.ofModel (.pack (div .binary64 _ _)) = _
      rw [hzero, hunpack]
      rfl
    rw [hmul, hdiv, Nat.cast_zero, zero_mul, zero_div]
    exact ⟨isNearest_zero .positive, isNearest_zero .positive⟩
  · obtain ⟨m', e, hm', hunpack', hvalue'⟩ :=
      exists_unpack_of_rational? (rational?_toFloat hm) (by positivity)
    rw [← hten, ← hvalue']
    exact ⟨isNearest_mul hunpack' hunpack, isNearest_div hunpack' hunpack⟩

theorem ten_zpow_le (h : e ≤ 0) : (10 ^ e : ℚ) ≤ 2 ^ e := by
  obtain ⟨k, rfl⟩ : ∃ k : ℕ, e = -k := ⟨e.natAbs, by omega⟩
  rw [zpow_neg, zpow_neg, zpow_natCast, zpow_natCast]
  gcongr
  norm_num

/-- A significand with zeros behind it. -/
theorem isRounded_integral (hm : 0 < m) (k : ℕ) :
    IsRounded .positive (m * 10 ^ k) (mul .binary64
      (.finite .positive (m <<< 53) (-53) (Nat.shiftLeft_pos_iff.2 hm))
      (.finite .positive (10 ^ k) 0 (by positivity))) := by
  have hlong : 2 ^ 52 ≤ m <<< 53 * 10 ^ k := by
    rw [Nat.shiftLeft_eq]
    calc 2 ^ 52 ≤ 1 * 2 ^ 53 * 1 := by norm_num
      _ ≤ m * 2 ^ 53 * 10 ^ k := by
        gcongr
        · exact hm
        · exact Nat.one_le_pow _ _ (by norm_num)
  have hvalue : ((m <<< 53 : ℕ) * 2 ^ (-53 : ℤ) * ((10 ^ k : ℕ) * 2 ^ (0 : ℤ)) : ℚ)
      = m * 10 ^ k := by
    rw [Nat.shiftLeft_eq, zpow_neg, zpow_zero]
    push_cast
    field_simp
  rw [← hvalue]
  exact isRounded_mul _ _ (le_lastDigit_of_le hlong)

/-- A significand with digits behind the point. -/
theorem isRounded_fraction (hm : 0 < m) (k : ℕ) :
    IsRounded .positive (m / 10 ^ k) (div .binary64 (.finite .positive m 0 hm)
      (.finite .positive (10 ^ k) 0 (by positivity))) := by
  have hvalue : (m * 2 ^ (0 : ℤ) / ((10 ^ k : ℕ) * 2 ^ (0 : ℤ)) : ℚ) = m / 10 ^ k := by
    rw [zpow_zero, mul_one, mul_one]
    push_cast
    rfl
  rw [← hvalue]
  exact isRounded_div _ _

/-- A thousand powers of ten are already too many. -/
theorem overflow_le_mul_ten_zpow (hm : 0 < m) (he : 1024 ≤ e) : overflow ≤ m * 10 ^ e := by
  have hone : (1 : ℚ) ≤ m := mod_cast hm
  calc overflow ≤ 2 ^ (1024 : ℤ) := sub_le_self _ (by positivity)
    _ ≤ 10 ^ (1024 : ℤ) := zpow_le_zpow_left₀ (by norm_num) (by norm_num) (by norm_num)
    _ ≤ 10 ^ e := zpow_le_zpow_right₀ (by norm_num) he
    _ ≤ m * 10 ^ e := le_mul_of_one_le_left (by positivity) hone

/-- A significand with so many zeros in front of it is too small for a float. -/
theorem mul_ten_zpow_lt (he : e < -(1075 + m.log2)) : (m * 10 ^ e : ℚ) < 2 ^ (-1075 : ℤ) := by
  have hlt : (m : ℚ) < 2 ^ (m.log2 + 1) := mod_cast Nat.lt_log2_self
  calc (m * 10 ^ e : ℚ) < 2 ^ (m.log2 + 1) * 10 ^ e := by gcongr
    _ ≤ 2 ^ (m.log2 + 1) * 2 ^ e := by gcongr; exact ten_zpow_le (by omega)
    _ = 2 ^ ((m.log2 + 1 : ℕ) + e) := (two_zpow_add _ e).symm
    _ ≤ 2 ^ (-1075 : ℤ) := zpow_le_zpow_right₀ one_le_two (by push_cast; omega)

/-- **A decimal number** becomes the float nearest to it. -/
theorem isNearest_ofScientific (m : ℕ) (e : ℤ) :
    IsNearest .positive (m * 10 ^ e) (.ofModel (Float.Model.ofScientific m e)) := by
  change IsNearest .positive (m * 10 ^ e) (.ofModel (.pack (ofScientific .binary64 m e)))
  unfold ofScientific
  split
  · next hm =>
    rw [hm, Nat.cast_zero, zero_mul]
    exact isNearest_zero .positive
  · next hm =>
    have hpos : 0 < m := Nat.pos_of_ne_zero hm
    split
    · next he =>
      replace he : 2048 < e := he
      exact ⟨rfl, overflow_le_mul_ten_zpow hpos (by omega)⟩
    · split
      · next he =>
        replace he : e < -(2048 + m.log2) := he
        have hsmall := mul_ten_zpow_lt (m := m) (e := e) (by omega)
        have hzero := rounded_eq_zero (by positivity) hsmall
        have hrounded : IsRounded .positive (m * 10 ^ e) (.zero .positive) := ⟨rfl, hzero⟩
        exact hrounded.pack (by positivity)
      · split
        · next he =>
          have hten : (10 ^ e : ℚ) = 10 ^ e.toNat := by
            rw [← zpow_natCast, Int.toNat_of_nonneg he]
          rw [hten]
          exact (isRounded_integral hpos e.toNat).pack (by positivity)
        · next he =>
          have hten : (10 ^ e : ℚ) = (10 ^ (-e).toNat)⁻¹ := by
            rw [← zpow_natCast, Int.toNat_of_nonneg (by omega), zpow_neg, inv_inv]
          rw [hten, ← div_eq_mul_inv]
          exact (isRounded_fraction hpos (-e).toNat).pack (by positivity)

theorem isNearest_ofDecimal (m : ℕ) (e : ℤ) : IsNearest .positive (m * 10 ^ e) (ofDecimal m e) := by
  unfold ofDecimal Float.ofScientific
  split
  · next hshort =>
    obtain ⟨hm, hk⟩ := hshort
    obtain ⟨hmul, hdiv⟩ := isNearest_short hm (Nat.lt_succ_iff.2 hk)
    by_cases he : e < 0
    · have hten : (m * 10 ^ e : ℚ) = m / 10 ^ e.natAbs := by
        rw [← zpow_natCast, Int.ofNat_natAbs_of_nonpos he.le, zpow_neg, div_inv_eq_mul]
      rw [hten]
      simp only [he, decide_true, if_true]
      exact hdiv
    · have hten : (m * 10 ^ e : ℚ) = m * 10 ^ e.natAbs := by
        rw [← zpow_natCast, Int.natAbs_of_nonneg (not_lt.1 he)]
      rw [hten]
      simp only [he, decide_false, Bool.false_eq_true, if_false]
      exact hmul
  · have he : (if decide (e < 0) then Int.negOfNat e.natAbs else Int.ofNat e.natAbs) = e := by
      by_cases he : e < 0
      · simp only [he, decide_true, if_true, Int.negOfNat_eq, Int.ofNat_eq_natCast]
        omega
      · simp only [he, decide_false, Bool.false_eq_true, if_false, Int.ofNat_eq_natCast]
        omega
    simp only [he]
    exact isNearest_ofScientific m e

end ReversePolish.Binary64
