import ReversePolish.Proofs.Binary64.Denotation
/-!
# Rounding

A positive number is rounded to the 53 binary digits from its first one on, or to fewer if it is so
small that the exponents end before that (`lastDigit`). Of two numbers that are equally near it
becomes the one with the even significand, and no float is nearer to it (`abs_rounded_sub_le`).

Arithmetic on floats does this with a significand that has been cut off, and two bits that tell what
was behind it (`Represents`). What comes out has as many digits as a float has, but its exponent may
be too large (`isRounded_roundWithAccuracy`).
-/

namespace ReversePolish.Binary64

open Float.Model (UnpackedFloat Format totalExponent)
open Float.Model.UnpackedFloat

/-! ## The nearest integer -/

/-- The integer nearest to `q`, and the even one of two that are equally near. -/
def nearestEven (q : ℚ) : ℤ :=
  if Int.fract q < 1 / 2 then ⌊q⌋
  else if 1 / 2 < Int.fract q then ⌊q⌋ + 1
  else ⌊q⌋ + ⌊q⌋ % 2

theorem abs_nearestEven_sub_le (q : ℚ) : |nearestEven q - q| ≤ 1 / 2 := by
  have hfract := Int.floor_add_fract q
  have hnonneg := Int.fract_nonneg q
  have hlt := Int.fract_lt_one q
  unfold nearestEven
  rw [abs_le]
  split
  · constructor <;> linarith
  · split
    · push_cast
      constructor <;> linarith
    · -- in the middle, either neighbour is half a unit away
      rcases Int.emod_two_eq_zero_or_one ⌊q⌋ with h | h <;>
        · rw [h]
          push_cast
          constructor <;> linarith

theorem nearestEven_mono : Monotone nearestEven := by
  intro p q hpq
  by_contra hlt
  have hstep : (nearestEven q : ℚ) + 1 ≤ nearestEven p := mod_cast (not_le.1 hlt)
  have hp := abs_le.1 (abs_nearestEven_sub_le p)
  have hq := abs_le.1 (abs_nearestEven_sub_le q)
  -- one unit apart, the two would be rounded from the same number
  obtain rfl : p = q := by linarith
  exact hlt le_rfl

@[simp] theorem nearestEven_intCast (z : ℤ) : nearestEven z = z := by
  simp [nearestEven]

theorem nearestEven_eq_zero {q : ℚ} (hq : 0 ≤ q) (hlt : q < 1 / 2) : nearestEven q = 0 := by
  have hfloor : ⌊q⌋ = 0 := Int.floor_eq_zero_iff.2 ⟨hq, by linarith⟩
  have hfract : Int.fract q = q := by rw [Int.fract, hfloor, Int.cast_zero, sub_zero]
  rw [nearestEven, hfract, if_pos hlt, hfloor]

/-- No integer is nearer. -/
theorem abs_nearestEven_sub_le_abs (q : ℚ) (z : ℤ) : |nearestEven q - q| ≤ |z - q| := by
  by_cases hz : z = nearestEven q
  · rw [hz]
  · have hnear := abs_nearestEven_sub_le q
    have hone : (1 : ℚ) ≤ |(z : ℚ) - nearestEven q| := by
      exact_mod_cast Int.one_le_abs (sub_ne_zero.2 hz)
    have htriangle := abs_sub_le (z : ℚ) q (nearestEven q)
    rw [abs_sub_comm q] at htriangle
    linarith

/-! ## Significands with more digits -/

/-- A significand with its round bit and its sticky bit tells all about the number `q` that it takes
to round it. -/
def Represents (s : ExtendedMantissa) (q : ℚ) : Prop :=
  match s.roundBit, s.stickyBit with
  | false, false => q = s.mantissa
  | false, true => s.mantissa < q ∧ q < s.mantissa + 1 / 2
  | true, false => q = s.mantissa + 1 / 2
  | true, true => s.mantissa + 1 / 2 < q ∧ q < s.mantissa + 1

namespace Represents

variable {s : ExtendedMantissa} {q : ℚ}

theorem exact (m : ℕ) : Represents (.ofMantissaAndAccuracy m .exact) m := rfl

/-- Dropping one more digit halves the number. -/
theorem shiftRightOne (h : Represents s q) : Represents s.shiftRightOne (q / 2) := by
  obtain ⟨m, roundBit, stickyBit⟩ := s
  have hm : (m : ℚ) = 2 * (m / 2 : ℕ) + (m % 2 : ℕ) := mod_cast (Nat.div_add_mod m 2).symm
  rcases Nat.mod_two_eq_zero_or_one m with hdigit | hdigit <;>
    rw [hdigit] at hm <;> push_cast at hm <;>
    cases roundBit <;> cases stickyBit <;>
    simp only [Represents, ExtendedMantissa.shiftRightOne, hdigit] at h ⊢ <;>
    grind

theorem shiftRight (h : Represents s q) (k : ℕ) : Represents (s >>> k) (q / 2 ^ k) := by
  induction k with
  | zero =>
    rw [pow_zero, div_one]
    exact h
  | succ k ih =>
    rw [pow_succ, ← div_div]
    exact ih.shiftRightOne

theorem floor_eq (h : Represents s q) : ⌊q⌋ = s.mantissa := by
  obtain ⟨m, roundBit, stickyBit⟩ := s
  rw [Int.floor_eq_iff]
  cases roundBit <;> cases stickyBit <;> simp only [Represents] at h <;> push_cast <;>
    constructor <;> linarith

/-- **The rounded significand** is the nearest integer. -/
theorem roundedMantissa_eq (h : Represents s q) : (s.roundedMantissa : ℤ) = nearestEven q := by
  have hfloor := h.floor_eq
  have hfract := Int.floor_add_fract q
  unfold nearestEven
  rw [hfloor] at hfract ⊢
  obtain ⟨m, roundBit, stickyBit⟩ := s
  cases roundBit <;> cases stickyBit <;> simp only [Represents] at h <;> push_cast at hfract
  · rw [if_pos (by linarith)]
    rfl
  · rw [if_pos (by linarith)]
    rfl
  · rw [if_neg (by linarith), if_neg (by linarith)]
    rfl
  · rw [if_neg (by linarith), if_pos (by linarith)]
    rfl

end Represents

/-! ## The digits that a float keeps -/

/-- The exponent of the last binary digit that a float keeps of a positive number. There are 53
digits, but none behind the one with the least exponent. -/
def lastDigit (q : ℚ) : ℤ := max (Int.log 2 q - 52) (-1074)

/-- A positive number, rounded to the digits that a float keeps of it. -/
def rounded (q : ℚ) : ℚ := nearestEven (q / 2 ^ lastDigit q) * 2 ^ lastDigit q

variable {m n : ℕ} {e : ℤ} {p q : ℚ}

@[simp] theorem rounded_zero : rounded 0 = 0 := by
  simp [rounded, nearestEven]

theorem two_zpow_add (k : ℕ) (z : ℤ) : (2 ^ (k + z) : ℚ) = 2 ^ k * 2 ^ z := by
  rw [zpow_add₀ two_ne_zero, zpow_natCast]

theorem log_eq_of_bounds (hle : 2 ^ e ≤ q) (hlt : q < 2 ^ (e + 1)) : Int.log 2 q = e := by
  have hq : 0 < q := lt_of_lt_of_le (by positivity) hle
  have hlower := (Int.zpow_le_iff_le_log (b := 2) one_lt_two hq).1 (mod_cast hle)
  have hupper := (Int.lt_zpow_iff_log_lt (b := 2) one_lt_two hq).1 (mod_cast hlt)
  omega

theorem scaled_lt (q : ℚ) : q / 2 ^ lastDigit q < 2 ^ 53 := by
  rw [div_lt_iff₀ (by positivity)]
  calc q < 2 ^ (Int.log 2 q + 1) := mod_cast Int.lt_zpow_succ_log_self one_lt_two q
    _ ≤ 2 ^ ((53 : ℕ) + lastDigit q) :=
      zpow_le_zpow_right₀ one_le_two (by unfold lastDigit; push_cast; omega)
    _ = 2 ^ 53 * 2 ^ lastDigit q := two_zpow_add 53 _

/-- There are 53 digits, unless the last one has the least exponent. -/
theorem le_scaled (hq : 0 < q) (h : -1074 < lastDigit q) : 2 ^ 52 ≤ q / 2 ^ lastDigit q := by
  rw [le_div_iff₀ (by positivity)]
  calc (2 ^ 52 * 2 ^ lastDigit q : ℚ) = 2 ^ ((52 : ℕ) + lastDigit q) := (two_zpow_add 52 _).symm
    _ ≤ 2 ^ Int.log 2 q :=
      zpow_le_zpow_right₀ one_le_two (by unfold lastDigit at h ⊢; push_cast; omega)
    _ ≤ q := mod_cast Int.zpow_log_le_self one_lt_two hq

theorem le_lastDigit (h : 2 ^ 52 * 2 ^ e ≤ q) : e ≤ lastDigit q := by
  have hq : 0 < q := lt_of_lt_of_le (by positivity) h
  have hlog : (52 : ℕ) + e ≤ Int.log 2 q := by
    refine (Int.zpow_le_iff_le_log (b := 2) one_lt_two hq).1 ?_
    rw [Nat.cast_ofNat, two_zpow_add]
    exact h
  unfold lastDigit
  omega

theorem lastDigit_mono (hp : 0 < p) (h : p ≤ q) : lastDigit p ≤ lastDigit q :=
  max_le_max_right _ (sub_le_sub_right (Int.log_mono_right hp h) 52)

/-- The significand that a number is rounded to, which is one too long if rounding has carried. -/
theorem nearestEven_scaled_le (q : ℚ) : nearestEven (q / 2 ^ lastDigit q) ≤ 2 ^ 53 := by
  rw [← nearestEven_intCast (2 ^ 53)]
  exact nearestEven_mono (by push_cast; exact (scaled_lt q).le)

theorem le_nearestEven_scaled (hq : 0 < q) (h : -1074 < lastDigit q) :
    2 ^ 52 ≤ nearestEven (q / 2 ^ lastDigit q) := by
  rw [← nearestEven_intCast (2 ^ 52)]
  exact nearestEven_mono (by push_cast; exact le_scaled hq h)

theorem rounded_nonneg (hq : 0 < q) : 0 ≤ rounded q := by
  have hnonneg : (0 : ℚ) ≤ nearestEven (q / 2 ^ lastDigit q) := by
    rw [← Int.cast_zero, Int.cast_le, ← nearestEven_intCast 0]
    exact nearestEven_mono (by push_cast; positivity)
  unfold rounded
  positivity

/-- **Rounding keeps the order** of positive numbers. -/
theorem rounded_mono (hp : 0 < p) (h : p ≤ q) : rounded p ≤ rounded q := by
  unfold rounded
  rcases (lastDigit_mono hp h).eq_or_lt with hplace | hplace
  · rw [hplace]
    gcongr
    exact nearestEven_mono (by gcongr)
  · -- the larger number has more digits, so a power of two lies between the two
    have hle : -1074 ≤ lastDigit p := le_max_right _ _
    have hupper : (nearestEven (p / 2 ^ lastDigit p) : ℚ) ≤ 2 ^ 53 :=
      mod_cast nearestEven_scaled_le p
    have hlower : (2 ^ 52 : ℚ) ≤ nearestEven (q / 2 ^ lastDigit q) :=
      mod_cast le_nearestEven_scaled (hp.trans_le h) (by omega)
    calc (nearestEven (p / 2 ^ lastDigit p) * 2 ^ lastDigit p : ℚ)
        ≤ 2 ^ 53 * 2 ^ lastDigit p := by gcongr
      _ = 2 ^ 52 * 2 ^ (lastDigit p + 1) := by rw [zpow_add₀ two_ne_zero]; ring
      _ ≤ 2 ^ 52 * 2 ^ lastDigit q := by
        gcongr
        · exact one_le_two
        · omega
      _ ≤ nearestEven (q / 2 ^ lastDigit q) * 2 ^ lastDigit q := by gcongr

theorem abs_rounded_sub_le_abs (q : ℚ) (z : ℤ) :
    |rounded q - q| ≤ |z * 2 ^ lastDigit q - q| := by
  have hpos : (0 : ℚ) < 2 ^ lastDigit q := by positivity
  have hscale (z : ℤ) :
      |z * 2 ^ lastDigit q - q| = |z - q / 2 ^ lastDigit q| * 2 ^ lastDigit q := by
    rw [← abs_of_pos hpos, ← abs_mul, abs_of_pos hpos, sub_mul, div_mul_cancel₀ _ hpos.ne']
  rw [rounded, hscale, hscale]
  exact mul_le_mul_of_nonneg_right (abs_nearestEven_sub_le_abs _ z) hpos.le

/-- With a larger exponent, an integer is a multiple of a place. -/
theorem exists_multiple {place : ℤ} (z : ℤ) (h : place ≤ e) :
    ∃ k : ℤ, (z * 2 ^ e : ℚ) = k * 2 ^ place := by
  refine ⟨z * 2 ^ (e - place).toNat, ?_⟩
  push_cast
  rw [mul_assoc, ← zpow_natCast, Int.toNat_of_nonneg (by omega), ← zpow_add₀ two_ne_zero,
    sub_add_cancel]

/-- With a smaller exponent, 53 digits stay below a power of two. -/
theorem mul_two_zpow_le {place z : ℤ} (hz : z ≤ 2 ^ 53) (h : e < place) :
    (z * 2 ^ e : ℚ) ≤ 2 ^ 52 * 2 ^ place := by
  have hle : (z : ℚ) ≤ 2 ^ 53 := mod_cast hz
  calc (z * 2 ^ e : ℚ) ≤ 2 ^ 53 * 2 ^ e := by gcongr
    _ = 2 ^ 52 * 2 ^ (e + 1) := by rw [zpow_add₀ two_ne_zero]; ring
    _ ≤ 2 ^ 52 * 2 ^ place := by
      gcongr
      · exact one_le_two
      · omega

/-- **No float is nearer** to a positive number than what it is rounded to. -/
theorem abs_rounded_sub_le {x : Float} (hq : 0 < q) (hx : rational? x = some p) :
    |rounded q - q| ≤ |p - q| := by
  unfold rational? at hx
  cases hunpack : x.toModel.unpack with
  | infinity | notANumber =>
    rw [hunpack] at hx
    cases hx
  | zero sign =>
    rw [hunpack] at hx
    cases hx
    simpa using abs_rounded_sub_le_abs q 0
  | finite sign m e hm =>
    have hform := canonical_of_unpack hunpack
    rw [hunpack] at hx
    cases hx
    rcases le_or_gt (lastDigit q) e with he | he
    · -- the float is a multiple of the last place
      obtain ⟨k, hk⟩ := exists_multiple (sign.apply m) he
      rw [hk]
      exact abs_rounded_sub_le_abs q k
    · -- the float is so small that a power of two lies between it and the number
      have hlower : 2 ^ 52 * 2 ^ lastDigit q ≤ q := by
        have hle := le_scaled hq (hform.le.trans_lt he)
        rwa [le_div_iff₀ (by positivity)] at hle
      have happly : sign.apply (m : ℤ) ≤ 2 ^ 53 := by
        have hlt := hform.lt
        cases sign <;> simp only [Sign.apply] <;> omega
      have hupper := mul_two_zpow_le happly he
      have hnear := abs_rounded_sub_le_abs q (2 ^ 52)
      rw [Int.cast_pow, Int.cast_ofNat, abs_of_nonpos (sub_nonpos.2 hlower)] at hnear
      rw [abs_of_nonpos (sub_nonpos.2 (hupper.trans hlower))]
      linarith

/-! ## Rounding a significand -/

theorem targetExponent_eq (total : ℤ) :
    Format.binary64.targetExponent total = max (total - 53) (-1074) := by
  unfold Format.targetExponent
  rfl

/-- **The place of the last digit** can be told from the digits before it. -/
theorem target_eq_lastDigit (hq : 0 < q) (hfloor : ⌊q / 2 ^ e⌋ = m) (he : e ≤ lastDigit q) :
    max (totalExponent m e - 53) (-1074) = lastDigit q := by
  have hpos : (0 : ℚ) < 2 ^ e := by positivity
  obtain ⟨hle, hlt⟩ := Int.floor_eq_iff.1 hfloor
  rw [le_div_iff₀ hpos] at hle
  rw [div_lt_iff₀ hpos] at hlt
  push_cast at hle hlt
  unfold totalExponent
  rcases m.eq_zero_or_pos with rfl | hm
  · -- all digits lie behind the place `e`, which can only be the least one
    have hlog : Int.log 2 q < e := by
      refine (Int.lt_zpow_iff_log_lt (b := 2) one_lt_two hq).1 ?_
      simpa using hlt
    have hzero : Nat.log2 0 = 0 := rfl
    unfold lastDigit at he ⊢
    rw [hzero]
    omega
  · have hlog : Int.log 2 q = m.log2 + e := by
      refine log_eq_of_bounds ?_ ?_
      · rw [zpow_add₀ two_ne_zero, zpow_natCast]
        refine le_trans ?_ hle
        gcongr
        exact_mod_cast Nat.log2_self_le hm.ne'
      · refine hlt.trans_le ?_
        rw [add_right_comm, zpow_add₀ two_ne_zero]
        gcongr
        exact_mod_cast Nat.lt_log2_self
    rw [lastDigit, hlog]
    omega

/-- A float that is taken apart is `q`, rounded, with a sign. It may be too large to be packed. -/
def IsRounded (sign : Sign) (q : ℚ) : UnpackedFloat → Prop
  | .zero s => s = sign ∧ rounded q = 0
  | .finite s m e _ => s = sign ∧ Canonical m e ∧ (m * 2 ^ e : ℚ) = rounded q
  | .infinity _ | .notANumber => False

/-- Shifting a significand to the exponent `target` leaves the number. -/
theorem shiftToTargetExponent_eq {accuracy : Accuracy} {target : ℤ} {q : ℚ}
    (hrepresents : Represents (.ofMantissaAndAccuracy m accuracy) (q / 2 ^ e))
    (h : max (totalExponent m e - 53) (-1074) = target) (hle : e ≤ target) :
    (shiftToTargetExponent .binary64 m e accuracy).2 = target ∧
      Represents (shiftToTargetExponent .binary64 m e accuracy).1 (q / 2 ^ target) := by
  unfold shiftToTargetExponent
  rw [targetExponent_eq, h]
  unfold Float.Model.UnpackedFloat.shiftToExponent
  refine ⟨by dsimp only; omega, ?_⟩
  have hshift : (q / 2 ^ target : ℚ) = q / 2 ^ e / 2 ^ (target - e).toNat := by
    rw [← zpow_natCast, Int.toNat_of_nonneg (by omega), zpow_sub₀ two_ne_zero]
    field_simp
  rw [hshift]
  exact hrepresents.shiftRight _

/-- Moving an exact significand to its target exponent loses nothing if what is left is an
integer. -/
theorem shift_exact {target : ℤ} {k : ℕ} (htarget : max (totalExponent m e - 53) (-1074) = target)
    (he : e ≤ target) (hvalue : (k * 2 ^ target : ℚ) = m * 2 ^ e) :
    (shiftToTargetExponent .binary64 m e .exact).1.mantissa = k ∧
      (shiftToTargetExponent .binary64 m e .exact).2 = target := by
  have hexact : Represents (.ofMantissaAndAccuracy m .exact) (m * 2 ^ e / 2 ^ e : ℚ) := by
    rw [mul_div_cancel_right₀ _ (by positivity)]
    exact .exact m
  obtain ⟨hexponent, hrepresents⟩ := shiftToTargetExponent_eq hexact htarget he
  have hmantissa := hrepresents.floor_eq
  rw [← hvalue, mul_div_cancel_right₀ _ (by positivity), Int.floor_natCast,
    Nat.cast_inj] at hmantissa
  exact ⟨hmantissa.symm, hexponent⟩

/-- Once rounded, a significand is as long as it should be, or one digit too long and even. -/
theorem exists_shift_rounded {e : ℤ} (hupper : m ≤ 2 ^ 53) (he : -1074 ≤ e)
    (hnormal : -1074 < e → 2 ^ 52 ≤ m) :
    ∃ m' e', (shiftToTargetExponent .binary64 m e .exact).1.mantissa = m' ∧
      (shiftToTargetExponent .binary64 m e .exact).2 = e' ∧
      Canonical m' e' ∧ (m' * 2 ^ e' : ℚ) = m * 2 ^ e := by
  rcases hupper.lt_or_eq with hlt | rfl
  · have htarget : max (totalExponent m e - 53) (-1074) = e := by
      have hlog : m.log2 ≤ 52 := by
        rcases m.eq_zero_or_pos with rfl | hpos
        · exact Nat.zero_le _
        · exact Nat.lt_succ_iff.1 ((Nat.log2_lt hpos.ne').2 hlt)
      unfold totalExponent
      rcases he.eq_or_lt with rfl | hlarge
      · omega
      · have := (Nat.le_log2 (by have := hnormal hlarge; omega)).2 (hnormal hlarge)
        omega
    obtain ⟨hmantissa, hexponent⟩ := shift_exact htarget le_rfl rfl
    exact ⟨m, e, hmantissa, hexponent, ⟨hlt, he, hnormal⟩, rfl⟩
  · have htarget : max (totalExponent (2 ^ 53) e - 53) (-1074) = e + 1 := by
      have hlog : (2 ^ 53).log2 = 53 := Nat.log2_two_pow
      rw [totalExponent, hlog]
      omega
    have hvalue : ((2 ^ 52 : ℕ) * 2 ^ (e + 1) : ℚ) = (2 ^ 53 : ℕ) * 2 ^ e := by
      rw [zpow_add₀ two_ne_zero]
      push_cast
      ring
    obtain ⟨hmantissa, hexponent⟩ := shift_exact htarget (by omega) hvalue
    exact ⟨2 ^ 52, e + 1, hmantissa, hexponent, ⟨by norm_num, by omega, fun _ => le_rfl⟩, hvalue⟩

/-- **Rounding to 53 digits**: the significand becomes the nearest integer. -/
theorem isRounded_roundWithAccuracy (sign : Sign) {accuracy : Accuracy} (hq : 0 < q)
    (hrepresents : Represents (.ofMantissaAndAccuracy m accuracy) (q / 2 ^ e))
    (he : e ≤ lastDigit q) : IsRounded sign q (roundWithAccuracy .binary64 sign m e accuracy) := by
  have hfloor : ⌊q / 2 ^ e⌋ = m := by
    rw [hrepresents.floor_eq]
    cases accuracy with
    | exact => rfl
    | inexact o => cases o <;> rfl
  obtain ⟨hexponent, hshifted⟩ :=
    shiftToTargetExponent_eq hrepresents (target_eq_lastDigit hq hfloor he) he
  have hrounded := hshifted.roundedMantissa_eq
  have hupper := nearestEven_scaled_le q
  have hnormal := le_nearestEven_scaled hq
  have hvalue : rounded q = nearestEven (q / 2 ^ lastDigit q) * 2 ^ lastDigit q := rfl
  rw [← hrounded] at hnormal hupper hvalue
  obtain ⟨m', e', hm', he', hcanonical, hkept⟩ :=
    exists_shift_rounded (m := (shiftToTargetExponent .binary64 m e accuracy).1.roundedMantissa)
      (e := lastDigit q) (mod_cast hupper) (le_max_right _ _) (fun h => mod_cast hnormal h)
  rw [Int.cast_natCast, ← hkept] at hvalue
  unfold roundWithAccuracy
  simp only [hexponent, hm', he']
  split
  · next hzero =>
    refine ⟨rfl, ?_⟩
    rw [hvalue, hzero]
    simp
  · exact ⟨rfl, hcanonical, hvalue.symm⟩

end ReversePolish.Binary64
