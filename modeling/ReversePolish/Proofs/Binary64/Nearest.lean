import ReversePolish.Proofs.Binary64.Rounding
/-!
# The nearest float

What was rounded has to be packed. That loses nothing, unless the exponent is too large: from
`overflow` on the nearest float is an infinity (`IsRounded.pack`). Below it no finite float is
nearer to the number than the one that it becomes (`IsNearestTo.abs_sub_le`).
-/

namespace ReversePolish.Binary64

open Float.Model (UnpackedFloat Format)
open Float.Model.UnpackedFloat

variable {m : ℕ} {e : ℤ} {p q r : ℚ} {x y : Float}

/-! ## Packing -/

section

variable {sign : Sign} {biased : ℕ} {h : 0 < m}

/-- The first of 53 digits is not written down. -/
theorem unpack_components_normal (hlower : 2 ^ 52 ≤ m) (hupper : m < 2 ^ 53) (hpos : 0 < biased)
    (hlast : biased < 2047) :
    unpack .binary64 (packComponents .binary64 sign (BitVec.ofNat 11 biased) (BitVec.ofNat 52 m))
      = .finite sign m (biased - 1075) h := by
  have hbias : ((Format.binary64.exponentBias : ℕ) : ℤ) = 1023 := rfl
  have hne : BitVec.ofNat 11 biased ≠ -1#11 := by
    simp only [ne_eq, ← BitVec.toNat_inj, BitVec.toNat_ofNat, BitVec.toNat_neg]
    omega
  have hne' : BitVec.ofNat 11 biased ≠ 0#11 := by
    simp only [ne_eq, ← BitVec.toNat_inj, BitVec.toNat_ofNat]
    omega
  have hmantissa : (1#1 ++ BitVec.ofNat 52 m).toNat = m := by
    rw [toNat_append_one, BitVec.toNat_ofNat]
    omega
  unfold unpack
  simp only [unpackMantissa_packComponents, unpackExponent_packComponents,
    unpackSign_packComponents, Sign.ofBitVec_toBitVec]
  rw [if_neg hne, if_neg hne']
  simp only [hmantissa, hbias, UnpackedFloat.finite.injEq, true_and, BitVec.toNat_ofNat]
  omega

/-- Fewer digits are marked by the least exponent. -/
theorem unpack_components_subnormal (hupper : m < 2 ^ 52) :
    unpack .binary64 (packComponents .binary64 sign 0#11 (BitVec.ofNat 52 m))
      = .finite sign m (-1074) h := by
  have hbias : ((Format.binary64.exponentBias : ℕ) : ℤ) = 1023 := rfl
  have hmantissa : (BitVec.ofNat 52 m).toNat = m := by
    rw [BitVec.toNat_ofNat, Nat.mod_eq_of_lt hupper]
  have hne : BitVec.ofNat 52 m ≠ 0#52 := by
    intro hzero
    rw [hzero] at hmantissa
    exact h.ne hmantissa
  unfold unpack
  simp only [unpackMantissa_packComponents, unpackExponent_packComponents,
    unpackSign_packComponents, Sign.ofBitVec_toBitVec]
  rw [if_neg (by decide), if_pos trivial, dif_neg hne]
  simp only [hmantissa, hbias, UnpackedFloat.finite.injEq, true_and]
  decide

/-- **Packing** a float that has all its digits loses nothing. -/
theorem unpack_pack (hform : Canonical m e) (he : e ≤ 971) :
    (Float.Model.pack (.finite sign m e h)).unpack = .finite sign m e h := by
  obtain ⟨hupper, hlower, hnormal⟩ := hform
  obtain ⟨biased, hbiased⟩ : ∃ biased : ℕ, (biased : ℤ) = e + 1075 :=
    ⟨(e + 1075).toNat, by omega⟩
  have hexponent : (e + Format.binary64.exponentBias
      + Format.binary64.mantissaBitsWithoutImplicit).toNat = biased := by
    change (e + 1023 + 52).toNat = biased
    omega
  change unpack .binary64 (pack .binary64 (.finite sign m e h)) = _
  unfold pack
  simp only [hexponent]
  rw [if_neg (show ¬2 ^ 11 ≤ biased + 1 by omega)]
  split
  · next hlog =>
    have hfull : 2 ^ 52 ≤ m :=
      ((Nat.log2_eq_iff h.ne').1 (Nat.succ_injective (hlog : m.log2 + 1 = 52 + 1))).1
    refine (unpack_components_normal (h := h) hfull hupper (by omega) (by omega)).trans ?_
    rw [hbiased, add_sub_cancel_right]
  · next hlog =>
    have hshort : m < 2 ^ 52 := by
      by_contra hfull
      refine hlog ?_
      rw [(Nat.log2_eq_iff h.ne').2 ⟨not_lt.1 hfull, hupper⟩]
      rfl
    obtain rfl : e = -1074 := by
      by_contra hne
      have := hnormal (by omega)
      omega
    exact unpack_components_subnormal hshort

end

/-- A float whose exponent is too large becomes an infinity. -/
theorem unpack_pack_of_lt {sign : Sign} {h : 0 < m} (he : 971 < e) :
    (Float.Model.pack (.finite sign m e h)).unpack = .infinity sign := by
  have hexponent : 2 ^ 11 ≤ (e + Format.binary64.exponentBias
      + Format.binary64.mantissaBitsWithoutImplicit).toNat + 1 := by
    change 2 ^ 11 ≤ (e + 1023 + 52).toNat + 1
    omega
  change unpack .binary64 (pack .binary64 (.finite sign m e h)) = _
  unfold pack
  simp only
  rw [if_pos hexponent]
  cases sign <;> rfl

theorem le_of_unpack {x : Float} {sign : Sign} {h : 0 < m}
    (hx : x.toModel.unpack = .finite sign m e h) :
    e ≤ 971 := by
  have hbias : ((Format.binary64.exponentBias : ℕ) : ℤ) = 1023 := rfl
  have hbits : (@unpackExponent .binary64 x.toModel.toBits.toBitVec).toNat < 2 ^ 11 :=
    BitVec.isLt _
  unfold Float.Model.unpack unpack at hx
  simp only [hbias] at hx
  split at hx
  · split at hx <;> cases hx
  · next hlast =>
    have hlt : (@unpackExponent .binary64 x.toModel.toBits.toBitVec).toNat ≠ 2 ^ 11 - 1 :=
      fun h => hlast (BitVec.toNat_inj.1 h)
    split at hx
    · next hleast =>
      split at hx
      · cases hx
      · injection hx with _ _ he
        rw [hleast] at he
        simp at he
        omega
    · injection hx with _ _ he
      omega

theorem unpack_pack_of_canonical {u : UnpackedFloat}
    (h : ∀ sign m e hm, u = .finite sign m e hm → Canonical m e ∧ e ≤ 971) :
    (Float.Model.pack u).unpack = u := by
  cases u with
  | notANumber => exact unpack_packedNaN
  | zero => exact unpack_packedZero
  | infinity sign => cases sign <;> rfl
  | finite sign m e hm =>
    obtain ⟨hform, he⟩ := h sign m e hm rfl
    exact unpack_pack hform he

theorem unpack_pack_unpack (x : Float) :
    (Float.Model.pack x.toModel.unpack).unpack = x.toModel.unpack :=
  unpack_pack_of_canonical fun _ _ _ _ hx => ⟨canonical_of_unpack hx, le_of_unpack hx⟩

/-- Changing the sign changes nothing else. -/
theorem unpack_neg (x : Float) : (-x).toModel.unpack = x.toModel.unpack.neg := by
  refine unpack_pack_of_canonical fun sign m e hm h => ?_
  cases hx : x.toModel.unpack with
  | notANumber | zero | infinity =>
    rw [hx] at h
    cases h
  | finite =>
    rw [hx] at h
    cases h
    exact ⟨canonical_of_unpack hx, le_of_unpack hx⟩

theorem numberOf_neg (u : UnpackedFloat) : numberOf u.neg = (numberOf u).map (-·) := by
  cases u with
  | infinity | notANumber => rfl
  | zero => exact congrArg some neg_zero.symm
  | finite sign m e hm =>
    cases sign <;> simp [numberOf, UnpackedFloat.neg, Sign.apply]

theorem rational?_neg (h : rational? x = some p) : rational? (-x) = some (-p) := by
  unfold rational? at h ⊢
  rw [unpack_neg, numberOf_neg, h]
  rfl

/-- Only an exponent that is too large makes a float as large as `2^1024`. -/
theorem Canonical.lt_iff (h : Canonical m e) :
    (m * 2 ^ e : ℚ) < 2 ^ (1024 : ℤ) ↔ e ≤ 971 := by
  constructor
  · intro hlt
    by_contra he
    have hfull : (2 ^ 52 : ℚ) ≤ m := mod_cast h.normal (by omega)
    refine hlt.not_ge ?_
    calc (2 ^ (1024 : ℤ) : ℚ) ≤ 2 ^ (((52 : ℕ) : ℤ) + e) :=
          zpow_le_zpow_right₀ one_le_two (by omega)
      _ = 2 ^ 52 * 2 ^ e := two_zpow_add 52 e
      _ ≤ m * 2 ^ e := by gcongr
  · intro he
    have hlt : (m : ℚ) < 2 ^ 53 := mod_cast h.lt
    calc (m * 2 ^ e : ℚ) < 2 ^ 53 * 2 ^ e := by gcongr
      _ = 2 ^ (((53 : ℕ) : ℤ) + e) := (two_zpow_add 53 e).symm
      _ ≤ 2 ^ (1024 : ℤ) := zpow_le_zpow_right₀ one_le_two (by omega)

/-! ## Overflow -/

/-- The least number that is too large for a finite float. It lies half way between the largest one
and `2^1024`, the next number with 53 digits. -/
def overflow : ℚ := 2 ^ (1024 : ℤ) - 2 ^ (970 : ℤ)

theorem overflow_eq : overflow = (2 ^ 53 - 1 / 2) * 2 ^ (971 : ℤ) := by
  have hlarge : (2 ^ (1024 : ℤ) : ℚ) = 2 ^ 53 * 2 ^ (971 : ℤ) := two_zpow_add 53 971
  have hhalf : (2 ^ (971 : ℤ) : ℚ) = 2 ^ 1 * 2 ^ (970 : ℤ) := two_zpow_add 1 970
  rw [overflow, hlarge, hhalf]
  ring

theorem nearestEven_last : nearestEven (2 ^ 53 - 1 / 2) = 2 ^ 53 := by
  norm_num [nearestEven, Int.fract]

/-- What is below the bound is rounded to a finite float. -/
theorem rounded_lt (hq : 0 < q) (h : q < overflow) : rounded q < 2 ^ (1024 : ℤ) := by
  have hlog : Int.log 2 q < 1024 := by
    refine (Int.lt_zpow_iff_log_lt (b := 2) one_lt_two hq).1 (h.trans ?_)
    rw [overflow, Nat.cast_ofNat]
    exact sub_lt_self _ (by positivity)
  have hlarge : (2 ^ (1024 : ℤ) : ℚ) = 2 ^ 53 * 2 ^ (971 : ℤ) := two_zpow_add 53 971
  have hplace : lastDigit q ≤ 971 := by
    unfold lastDigit
    omega
  rw [rounded, hlarge]
  rcases hplace.lt_or_eq with hshort | hfull
  · have hle : (nearestEven (q / 2 ^ lastDigit q) : ℚ) ≤ 2 ^ 53 :=
      mod_cast nearestEven_scaled_le q
    have hpower : (2 ^ lastDigit q : ℚ) < 2 ^ (971 : ℤ) := zpow_lt_zpow_right₀ one_lt_two hshort
    calc (nearestEven (q / 2 ^ lastDigit q) * 2 ^ lastDigit q : ℚ)
        ≤ 2 ^ 53 * 2 ^ lastDigit q := by gcongr
      _ < 2 ^ 53 * 2 ^ (971 : ℤ) := by gcongr
  · rw [hfull]
    have hscaled : q / 2 ^ (971 : ℤ) < 2 ^ 53 - 1 / 2 := by
      rw [div_lt_iff₀ (by positivity), ← overflow_eq]
      exact h
    have hnear := (abs_le.1 (abs_nearestEven_sub_le (q / 2 ^ (971 : ℤ)))).2
    have hlt : (nearestEven (q / 2 ^ (971 : ℤ)) : ℚ) < 2 ^ 53 := by linarith
    gcongr

theorem rounded_overflow : rounded overflow = 2 ^ (1024 : ℤ) := by
  have hpos : (0 : ℚ) < 2 ^ (970 : ℤ) := by positivity
  have hlog : Int.log 2 overflow = 1023 := by
    have hlarge : (2 ^ (1024 : ℤ) : ℚ) = 2 ^ 1 * 2 ^ (1023 : ℤ) := two_zpow_add 1 1023
    have hsmall : (2 ^ (970 : ℤ) : ℚ) ≤ 2 ^ (1023 : ℤ) :=
      zpow_le_zpow_right₀ one_le_two (by norm_num)
    refine log_eq_of_bounds ?_ (sub_lt_self _ hpos)
    rw [overflow, hlarge, pow_one, two_mul, add_sub_assoc]
    exact le_add_of_nonneg_right (sub_nonneg.2 hsmall)
  have hplace : lastDigit overflow = 971 := by
    unfold lastDigit
    omega
  have hlarge : (2 ^ (1024 : ℤ) : ℚ) = 2 ^ 53 * 2 ^ (971 : ℤ) := two_zpow_add 53 971
  rw [rounded, hplace, overflow_eq, mul_div_cancel_right₀ _ (by positivity), nearestEven_last,
    hlarge, Int.cast_pow, Int.cast_ofNat]

theorem overflow_pos : 0 < overflow := by
  rw [overflow_eq]
  have hpos : (0 : ℚ) < 2 ^ 53 - 1 / 2 := by norm_num
  positivity

/-- What reaches the bound is rounded to a number that is too large for a finite float. -/
theorem le_rounded (h : overflow ≤ q) : 2 ^ (1024 : ℤ) ≤ rounded q := by
  rw [← rounded_overflow]
  exact rounded_mono overflow_pos h

/-! ## The nearest float -/

/-- `x` is the float nearest to `q`, with a sign: the finite one that `q` is rounded to, or an
infinity if `q` is too large. -/
def IsNearest (sign : Sign) (q : ℚ) (x : Float) : Prop :=
  match x.toModel.unpack with
  | .zero s => s = sign ∧ rounded q = 0
  | .finite s m e _ => s = sign ∧ q < overflow ∧ (m * 2 ^ e : ℚ) = rounded q
  | .infinity s => s = sign ∧ overflow ≤ q
  | .notANumber => False

/-- **Packing what was rounded** makes it the nearest float. -/
theorem IsRounded.pack {sign : Sign} {u : UnpackedFloat} (hq : 0 < q) (h : IsRounded sign q u) :
    IsNearest sign q (.ofModel (.pack u)) := by
  unfold IsNearest
  cases u with
  | infinity | notANumber => cases h
  | zero s =>
    obtain ⟨rfl, hzero⟩ := h
    have hunpack : (Float.Model.pack (.zero s)).unpack = .zero s := unpack_packedZero
    simp only [hunpack]
    exact ⟨trivial, hzero⟩
  | finite s m e hm =>
    obtain ⟨rfl, hform, hvalue⟩ := h
    by_cases he : e ≤ 971
    · simp only [unpack_pack hform he]
      refine ⟨trivial, ?_, hvalue⟩
      by_contra hlarge
      have hle := le_rounded (not_lt.1 hlarge)
      rw [← hvalue] at hle
      exact (hform.lt_iff.2 he).not_ge hle
    · simp only [unpack_pack_of_lt (not_le.1 he)]
      refine ⟨trivial, ?_⟩
      by_contra hsmall
      have hlt := rounded_lt hq (not_le.1 hsmall)
      rw [← hvalue, hform.lt_iff] at hlt
      exact he hlt

namespace IsNearest

variable {sign : Sign}

theorem isFinite_iff (h : IsNearest sign q x) : x.isFinite ↔ q < overflow := by
  change x.toModel.unpack.isFinite = true ↔ _
  unfold IsNearest at h
  cases hx : x.toModel.unpack with
  | notANumber =>
    rw [hx] at h
    cases h
  | infinity s =>
    rw [hx] at h
    simpa [UnpackedFloat.isFinite] using h.2
  | zero s =>
    rw [hx] at h
    have hsmall : q < overflow := by
      by_contra hlarge
      have hle := le_rounded (not_lt.1 hlarge)
      rw [h.2] at hle
      exact hle.not_gt (by positivity)
    simpa [UnpackedFloat.isFinite] using hsmall
  | finite s m e hm =>
    rw [hx] at h
    simpa [UnpackedFloat.isFinite] using h.2.1

theorem isInf_iff (h : IsNearest sign q x) : x.isInf ↔ overflow ≤ q := by
  have hinf : x.isInf = !x.isFinite := by
    change x.toModel.unpack.isInf = !x.toModel.unpack.isFinite
    unfold IsNearest at h
    cases hx : x.toModel.unpack with
    | notANumber =>
      rw [hx] at h
      cases h
    | infinity | zero | finite => rfl
  rw [hinf, Bool.not_eq_true', ← Bool.not_eq_true, h.isFinite_iff, not_lt]

/-- The number behind the nearest float. -/
theorem rational? (h : IsNearest sign q x) (hq : q < overflow) :
    rational? x = some (sign.apply 1 * rounded q) := by
  unfold IsNearest at h
  unfold Binary64.rational?
  cases hx : x.toModel.unpack with
  | notANumber =>
    rw [hx] at h
    cases h
  | infinity s =>
    rw [hx] at h
    exact absurd hq h.2.not_gt
  | zero s =>
    rw [hx] at h
    rw [h.2, mul_zero]
    rfl
  | finite s m e hm =>
    rw [hx] at h
    obtain ⟨rfl, -, hvalue⟩ := h
    rw [← hvalue]
    cases s <;> simp [numberOf, Sign.apply]

/-- The other sign goes with the number of the other sign. -/
theorem neg (h : IsNearest sign q x) : IsNearest (-sign) q (-x) := by
  unfold IsNearest at *
  rw [unpack_neg]
  cases hx : x.toModel.unpack with
  | notANumber =>
    rw [hx] at h
    cases h
  | zero | infinity | finite =>
    rw [hx] at h
    obtain ⟨rfl, h⟩ := h
    exact ⟨rfl, h⟩

/-- **No finite float is nearer** to a number, with its sign, than the nearest one. -/
theorem abs_sub_le (h : IsNearest sign q x) (hq : 0 ≤ q) (hx : Binary64.rational? x = some r)
    (hy : Binary64.rational? y = some p) :
    |r - sign.apply 1 * q| ≤ |p - sign.apply 1 * q| := by
  have hsmall : q < overflow := h.isFinite_iff.1 (Binary64.isFinite_iff.2 ⟨r, hx⟩)
  rw [h.rational? hsmall] at hx
  obtain rfl := Option.some.inj hx
  rcases hq.eq_or_lt with rfl | hpos
  · simp
  · cases sign with
    | positive => simpa [Sign.apply] using abs_rounded_sub_le hpos hy
    | negative =>
      have hnear := abs_rounded_sub_le hpos (rational?_neg hy)
      rw [← abs_neg (rounded q - q), ← abs_neg (-p - q)] at hnear
      simpa [Sign.apply, add_comm, sub_eq_add_neg] using hnear

end IsNearest

variable {s : Sign}

/-- `x` is the float nearest to `q`, of whichever sign `q` is. A zero may have either. -/
def IsNearestTo (q : ℚ) (x : Float) : Prop :=
  ∃ sign : Sign, q = sign.apply 1 * |q| ∧ IsNearest sign |q| x

/-- **No finite float is nearer** to a number than the nearest one. -/
theorem IsNearestTo.abs_sub_le (h : IsNearestTo q x) (hx : rational? x = some r)
    (hy : rational? y = some p) : |r - q| ≤ |p - q| := by
  obtain ⟨sign, hsign, hnearest⟩ := h
  rw [hsign]
  exact IsNearest.abs_sub_le hnearest (abs_nonneg q) hx hy

theorem IsNearest.isNearestTo (h : IsNearest s q x) (hq : 0 ≤ q) :
    IsNearestTo (s.apply 1 * q) x := by
  have habs : |(s.apply 1 * q : ℚ)| = q := by
    cases s <;> simp [Sign.apply, abs_of_nonneg hq]
  exact ⟨s, by rw [habs], by rwa [habs]⟩

theorem isNearest_zero (sign : Sign) : IsNearest sign 0 (.ofModel (.pack (.zero sign))) := by
  have hunpack : (Float.Model.pack (.zero sign)).unpack = .zero sign := unpack_packedZero
  unfold IsNearest
  simp only [hunpack]
  exact ⟨trivial, rounded_zero⟩

theorem isNearestTo_zero (sign : Sign) : IsNearestTo 0 (.ofModel (.pack (.zero sign))) := by
  simpa using (isNearest_zero sign).isNearestTo le_rfl

end ReversePolish.Binary64
