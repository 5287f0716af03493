import ReversePolish.Proofs.Binary64.Denotation
/-!
# Equality up to a tolerance

Two floats that the order makes equal are equal up to the tolerance if they are finite: their
difference is zero, and the tolerance is never below zero (`nearlyEqual_of_order?_eq`). The
infinities are left out, as no infinity is equal to anything in this sense.
-/

namespace ReversePolish.Binary64

open Float.Model (UnpackedFloat Format)
open Float.Model.UnpackedFloat

/-! ## Floats that are not below zero -/

/-- A float that is taken apart is not below zero. -/
def IsNonneg (u : UnpackedFloat) : Prop := (UnpackedFloat.zero .positive).le u = true

theorem nonneg_iff {x : Float} : 0.0 ≤ x ↔ IsNonneg x.toModel.unpack := by
  change decide _ = true ↔ _
  rw [decide_eq_true_iff]
  rfl

theorem isNonneg_unpack_components (e : BitVec 11) (m : BitVec 52) (h : e = -1#11 → m = 0#52) :
    IsNonneg (unpack .binary64 (packComponents .binary64 .positive e m)) := by
  unfold unpack
  simp only [unpackMantissa_packComponents, unpackExponent_packComponents,
    unpackSign_packComponents, Sign.ofBitVec_toBitVec]
  split
  · next he =>
    rw [if_pos (h he)]
    rfl
  · split
    · split <;> rfl
    · rfl

/-- Packing keeps the sign. -/
theorem isNonneg_pack {m : ℕ} {e : ℤ} (h : 0 < m) :
    IsNonneg (Float.Model.pack (.finite .positive m e h)).unpack := by
  change IsNonneg (unpack .binary64 (pack .binary64 (.finite .positive m e h)))
  unfold pack
  simp only
  split
  · exact isNonneg_unpack_components _ _ fun _ => rfl
  · next hsmall =>
    split
    · refine isNonneg_unpack_components _ _ fun hlast => ?_
      simp only [← BitVec.toNat_inj, BitVec.toNat_ofNat, BitVec.toNat_neg] at hlast
      omega
    · exact isNonneg_unpack_components _ _ fun hlast => absurd hlast (by decide)

variable {x y : Float}

theorem nonneg_maximum (hx : 0.0 ≤ x) (hy : 0.0 ≤ y) : 0.0 ≤ maximum x y := by
  unfold maximum
  split
  · exact hy
  · split
    · exact hy
    · exact hx

theorem nonneg_abs (h : x.isFinite) : 0.0 ≤ x.abs := by
  rw [nonneg_iff]
  change x.toModel.unpack.isFinite = true at h
  change IsNonneg (Float.Model.pack x.toModel.unpack.abs).unpack
  cases hx : x.toModel.unpack with
  | infinity | notANumber =>
    rw [hx] at h
    cases h
  | zero sign => cases sign <;> rfl
  | finite sign m e hm => exact isNonneg_pack hm

/-- The tolerance at any scale. -/
theorem nonneg_epsilon_mul (h : 0.0 ≤ x) : 0.0 ≤ epsilon * x := by
  have hepsilon : epsilon.toModel.unpack = .finite .positive (2 ^ 52) (-104) (by decide) := rfl
  rw [nonneg_iff] at *
  change IsNonneg (Float.Model.pack (mul .binary64 epsilon.toModel.unpack x.toModel.unpack)).unpack
  rw [hepsilon]
  cases hx : x.toModel.unpack with
  | notANumber =>
    rw [hx] at h
    cases h
  | infinity sign =>
    cases sign with
    | negative =>
      rw [hx] at h
      cases h
    | positive => rfl
  | zero sign => cases sign <;> rfl
  | finite sign m e hm =>
    cases sign with
    | negative =>
      rw [hx] at h
      cases h
    | positive =>
      unfold mul roundWithAccuracy
      simp only
      split
      · rfl
      · exact isNonneg_pack _

theorem abs_sub_self (h : x.isFinite) : (x - x).abs = 0.0 := by
  change x.toModel.unpack.isFinite = true at h
  have hzero : sub .binary64 x.toModel.unpack x.toModel.unpack = .zero .positive := by
    cases hx : x.toModel.unpack with
    | infinity | notANumber =>
      rw [hx] at h
      cases h
    | zero sign => cases sign <;> rfl
    | finite sign m e hm => simp [sub, UnpackedFloat.normalize]
  change Float.ofModel (Float.Model.pack (Float.Model.pack
    (sub .binary64 x.toModel.unpack x.toModel.unpack)).unpack.abs) = 0.0
  rw [hzero]
  rfl

/-! ## The tolerance and the order -/

theorem nearlyEqual_self (h : x.isFinite) : nearlyEqual x x := by
  have hone : 0.0 ≤ (1.0 : Float) := by decide
  have htolerance := nonneg_epsilon_mul (nonneg_maximum (nonneg_maximum (nonneg_abs h)
    (nonneg_abs h)) hone)
  unfold nearlyEqual
  rw [h, abs_sub_self h]
  simpa using htolerance

/-- **Finite floats that are equal in the order** are equal up to the tolerance. -/
theorem nearlyEqual_of_order?_eq (hx : x.isFinite) (h : order? x y = some .eq) :
    nearlyEqual x y := by
  -- equal floats are the same, or zeros that differ in their signs
  obtain ⟨-, -, rfl | ⟨rfl, rfl⟩ | ⟨rfl, rfl⟩⟩ :=
    Float.beq_iff_ne_nan_and_eq.1 (beq_of_order?_eq h)
  · exact nearlyEqual_self hx
  · decide
  · decide

end ReversePolish.Binary64
