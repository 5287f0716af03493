import Mathlib.Data.Int.ModEq
import ReversePolish.Proofs.Value.Rules
/-!
# Arithmetic on words

Integers and unsigned integers are computed with in 64 bits. What comes out for a sum, a difference
or a product is the word that is congruent to the exact result modulo 2^64, and there is only one.
The same is so for a quotient, which is cut off toward zero; it is a word itself but for one pair of
operands, the least signed word and minus one.

The modulo never wraps. The signed one is computed from the remainder of the division cut off toward
zero, which has the sign of the dividend: where that is not the sign of the divisor, the divisor is
added once. What results is the only residue of the dividend between zero and the divisor
(`Modulo`).

As sums and differences are only ever wrong by a multiple of 2^64, each takes back the other.
-/

namespace ReversePolish

/-! ## Residues -/

/-- The integer `z` is between zero and the divisor `b`, where zero is included and `b` is not. -/
def IsResidue (b z : Int) : Prop := (0 < b → 0 ≤ z ∧ z < b) ∧ (b < 0 → b < z ∧ z ≤ 0)

/-- The floored modulo `z` of `a` by `b`: the remainder of the division that rounds down, and the
only residue that is congruent to `a`. -/
structure Modulo (a b z : Int) : Prop where
  eq_sub : z = a - a.fdiv b * b
  unique : ∀ y, y ≡ a [ZMOD b] ∧ IsResidue b y ↔ y = z

section

variable {a b x y z : Int}

theorem IsResidue.eq_of_modEq (hb : b ≠ 0) (hx : IsResidue b x) (hy : IsResidue b y)
    (h : x ≡ y [ZMOD b]) : x = y := by
  -- two residues are less than one divisor apart
  have hnear : (y - x).natAbs < b.natAbs := by
    unfold IsResidue at hx hy
    omega
  have hsame : y - x = 0 := Int.eq_zero_of_dvd_of_natAbs_lt_natAbs h.dvd hnear
  omega

theorem isResidue_fmod (a : Int) (hb : b ≠ 0) : IsResidue b (a.fmod b) := by
  have hnonneg := Int.emod_nonneg a hb
  have hlt := Int.emod_lt a hb
  rw [Int.fmod_eq_emod]
  unfold IsResidue
  split
  · next h =>
    rcases h with h | h
    · omega
    · have hzero := Int.emod_eq_zero_of_dvd h
      omega
  · next h =>
    have hne : a % b ≠ 0 := fun hzero => h (.inr (Int.dvd_of_emod_eq_zero hzero))
    omega

theorem fmod_modEq (a b : Int) : a.fmod b ≡ a [ZMOD b] := by
  rw [Int.fmod_def, Int.modEq_iff_dvd, Int.sub_sub_self]
  exact Int.dvd_mul_right b _

/-- A residue that is congruent to the dividend is the modulo. -/
theorem Modulo.of_isResidue (hb : b ≠ 0) (hz : IsResidue b z) (h : z ≡ a [ZMOD b]) :
    Modulo a b z := by
  have hfloor : z = a.fmod b :=
    hz.eq_of_modEq hb (isResidue_fmod a hb) (h.trans (fmod_modEq a b).symm)
  refine ⟨by rw [hfloor, Int.fmod_def, Int.mul_comm], fun y => ⟨?_, ?_⟩⟩
  · rintro ⟨hy, hresidue⟩
    exact hresidue.eq_of_modEq hb hz (hy.trans h.symm)
  · rintro rfl
    exact ⟨h, hz⟩

end

/-! ## Kinds of words -/

/-- A kind of words: the numbers that they are, the integers that they stand for, how a number is
converted to one, and how two are computed with. Congruent words are equal. -/
structure WordKind (α : Type) where
  number : α → Number
  toInt : α → Int
  convert : Number → Except ValueError α
  compute : Operation → α → α → Except ValueError α
  arithmetic_eq (op : Operation) (a : α) (m : Number) :
    Number.arithmetic op (number a) m = do return number (← compute op a (← convert m))
  eq_of_modEq (w u : α) : toInt w ≡ toInt u [ZMOD 2 ^ 64] → w = u

namespace WordKind

def signed : WordKind Int64 where
  number := .integer
  toInt := Int64.toInt
  convert := Number.checkedInt
  compute := Operation.onIntegers
  arithmetic_eq _ _ _ := rfl
  eq_of_modEq w u h := by
    have hdvd := h.dvd
    have hw := w.le_toInt
    have hw' := w.toInt_lt
    have hu := u.le_toInt
    have hu' := u.toInt_lt
    exact Int64.toInt_inj.1 (by omega)

def unsigned : WordKind UInt64 where
  number := .unsigned
  toInt u := u.toNat
  convert := Number.checkedUnsigned
  compute := Operation.onUnsigned
  arithmetic_eq _ _ _ := rfl
  eq_of_modEq w u h := by
    have hdvd := h.dvd
    have hw := w.toNat_lt
    have hu := u.toNat_lt
    exact UInt64.toNat_inj.1 (by omega)

variable {α : Type} (k : WordKind α)

def value (w : α) : Value := .number (k.number w)

/-- The word behind a value, if it converts to this kind. -/
def checked (r : Value) : Except ValueError α := r.checkedNumber >>= k.convert

/-- A value is a word that stands for the integer `z` itself. -/
def Is (v : Value) (z : Int) : Prop := ∃ w, v = k.value w ∧ k.toInt w = z

/-- A value is the word that is congruent to the integer `z`, the only one there is. -/
def Wraps (v : Value) (z : Int) : Prop :=
  ∃ w, v = k.value w ∧ ∀ u, k.toInt u ≡ z [ZMOD 2 ^ 64] ↔ u = w

/-- What the operations give for the word `a` and a right operand `r` that converts to `b`. -/
structure Computes (a : α) (r : Value) (b : α) : Prop where
  add : k.Wraps (Value.arithmetic .add (k.value a) r) (k.toInt a + k.toInt b)
  sub : k.Wraps (Value.arithmetic .sub (k.value a) r) (k.toInt a - k.toInt b)
  mul : k.Wraps (Value.arithmetic .mul (k.value a) r) (k.toInt a * k.toInt b)
  div (hb : k.toInt b ≠ 0) :
    k.Wraps (Value.arithmetic .div (k.value a) r) ((k.toInt a).tdiv (k.toInt b))
  mod (hb : k.toInt b ≠ 0) :
    ∃ z, k.Is (Value.arithmetic .mod (k.value a) r) z ∧ Modulo (k.toInt a) (k.toInt b) z

/-- A sum and a difference with the right operand `r` take each other back. -/
structure RoundTrips (a : α) (r : Value) : Prop where
  sub_add : Value.arithmetic .sub (Value.arithmetic .add (k.value a) r) r = k.value a
  add_sub : Value.arithmetic .add (Value.arithmetic .sub (k.value a) r) r = k.value a

section

variable {k} {a b w : α} {r v : Value} {z : Int} {op : Operation}

theorem number?_value (w : α) : (k.value w).number? = some (k.number w) := rfl

theorem wraps_of_modEq (h : k.toInt w ≡ z [ZMOD 2 ^ 64]) : k.Wraps (k.value w) z := by
  refine ⟨w, rfl, fun u => ⟨fun hu => k.eq_of_modEq u w (hu.trans h.symm), ?_⟩⟩
  rintro rfl
  exact h

theorem Wraps.eq_value (h : k.Wraps v z) (hw : k.toInt w ≡ z [ZMOD 2 ^ 64]) : v = k.value w := by
  obtain ⟨u, hv, hu⟩ := h
  rw [hv, (hu w).1 hw]

/-- **An operation on a word** converts the right operand, and stays among the words. -/
theorem arithmetic_of_checked (h : k.checked r = .ok b) :
    Value.arithmetic op (k.value a) r = Value.ofExcept k.value (k.compute op a b) := by
  cases hr : r.number? with
  | none =>
    have hnone : r.checkedNumber = .error .impossibleConversion := by
      simp only [Value.checkedNumber, hr]
    rw [checked, hnone] at h
    cases h
  | some m =>
    rw [checked, Value.checkedNumber_of_number? hr] at h
    have hconvert : k.convert m = .ok b := h
    rw [Value.arithmetic_of_number? (number?_value a) hr, k.arithmetic_eq, hconvert]
    change Value.ofExcept .number (k.compute op a b >>= fun w => pure (k.number w)) = _
    cases k.compute op a b with
    | error code => rfl
    | ok w => rfl

theorem arithmetic_of_compute (h : k.checked r = .ok b) (hw : k.compute op a b = .ok w) :
    Value.arithmetic op (k.value a) r = k.value w := by
  rw [arithmetic_of_checked h, hw]
  rfl

theorem wraps_of_compute (h : k.checked r = .ok b) (hw : k.compute op a b = .ok w)
    (hz : k.toInt w ≡ z [ZMOD 2 ^ 64]) : k.Wraps (Value.arithmetic op (k.value a) r) z := by
  rw [arithmetic_of_compute h hw]
  exact wraps_of_modEq hz

/-- An operation on a word that gives no error has converted the right operand. -/
theorem exists_checked (h : (Value.arithmetic op (k.value a) r).isError = false) :
    ∃ b, k.checked r = .ok b := by
  cases hr : r.number? with
  | none =>
    cases r with
    | null | error | string => cases h
    | boolean | number => cases hr
  | some m =>
    rw [Value.arithmetic_of_number? (number?_value a) hr, k.arithmetic_eq] at h
    rw [checked, Value.checkedNumber_of_number? hr]
    cases hconvert : k.convert m with
    | error code =>
      rw [hconvert] at h
      cases h
    | ok b => exact ⟨b, hconvert⟩

/-- **Sums and differences take each other back**, since each of them wraps to the one word that is
congruent. -/
theorem roundTrips_of_computes (h : ∀ a, k.Computes a r b) (a : α) : k.RoundTrips a r := by
  constructor
  · obtain ⟨w, hsum, hw⟩ := (h a).add
    have hback : k.toInt a ≡ k.toInt w - k.toInt b [ZMOD 2 ^ 64] := by
      have hdvd := ((hw w).2 rfl).dvd
      apply Int.modEq_of_dvd
      omega
    rw [hsum]
    exact (h w).sub.eq_value hback
  · obtain ⟨w, hdifference, hw⟩ := (h a).sub
    have hback : k.toInt a ≡ k.toInt w + k.toInt b [ZMOD 2 ^ 64] := by
      have hdvd := ((hw w).2 rfl).dvd
      apply Int.modEq_of_dvd
      omega
    rw [hdifference]
    exact (h w).add.eq_value hback

end

end WordKind

/-! ## Signed words -/

namespace Operation

section

variable {a b : Int64}

theorem onIntegers_div (a : Int64) (hb : b ≠ 0) : div.onIntegers a b = .ok (a / b) :=
  if_neg (by simpa [divides] using hb)

theorem onIntegers_mod (a : Int64) (hb : b ≠ 0) : mod.onIntegers a b = .ok (flooredMod a b) :=
  if_neg (by simpa [divides] using hb)

theorem toInt_ne_zero (hb : b ≠ 0) : b.toInt ≠ 0 := fun h => hb (Int64.toInt_inj.1 h)

theorem toInt_lt_zero (a : Int64) : a.toInt < 0 ↔ a < 0 := by
  rw [Int64.lt_iff_toInt_lt]
  rfl

/-- **The quotient** is exact for all operands but one pair. -/
theorem toInt_quotient_iff (a b : Int64) :
    (a / b).toInt = a.toInt.tdiv b.toInt ↔ ¬(a = Int64.minValue ∧ b = -1) := by
  by_cases ha : a = Int64.minValue
  · by_cases hb : b = -1
    · rw [ha, hb]
      decide
    · exact iff_of_true (Int64.toInt_div_of_ne_right a b hb) fun h => hb h.2
  · exact iff_of_true (Int64.toInt_div_of_ne_left a b ha) fun h => ha h.1

theorem remainder_modEq (a b : Int64) : (a % b).toInt ≡ a.toInt [ZMOD b.toInt] := by
  rw [Int64.toInt_mod, Int.tmod_def, Int.modEq_iff_dvd, Int.sub_sub_self]
  exact Int.dvd_mul_right _ _

/-- The remainder of the division that cuts off is nearer to zero than the divisor is. -/
theorem natAbs_remainder_lt (a : Int64) (hb : b ≠ 0) :
    (a % b).toInt.natAbs < b.toInt.natAbs := by
  have hdivisor := toInt_ne_zero hb
  rw [Int64.toInt_mod, Int.natAbs_tmod]
  exact Nat.mod_lt _ (by omega)

/-- **The correction** of a remainder does not overflow, as it adds two numbers that differ in their
signs. -/
theorem toInt_remainder_add (h : ¬(a % b < 0 ↔ b < 0)) :
    (a % b + b).toInt = (a % b).toInt + b.toInt := by
  have hr := (a % b).le_toInt
  have hr' := (a % b).toInt_lt
  have hb := b.le_toInt
  have hb' := b.toInt_lt
  rw [← toInt_lt_zero, ← toInt_lt_zero] at h
  rw [Int64.toInt_add]
  exact Int.bmod_eq_of_le (by omega) (by omega)

/-- **The floored modulo** is the remainder, moved by one divisor at most. -/
theorem modulo_flooredMod (a : Int64) (hb : b ≠ 0) :
    Modulo a.toInt b.toInt (flooredMod a b).toInt := by
  have hdivisor := toInt_ne_zero hb
  have hcongruent := remainder_modEq a b
  have hlt := natAbs_remainder_lt a hb
  by_cases hmoved : a % b ≠ 0 ∧ ¬(a % b < 0 ↔ b < 0)
  · have hresult : flooredMod a b = a % b + b := if_pos hmoved
    obtain ⟨hne, hsigns⟩ := hmoved
    have hremainder := toInt_ne_zero hne
    rw [hresult, toInt_remainder_add hsigns]
    rw [← toInt_lt_zero, ← toInt_lt_zero] at hsigns
    refine Modulo.of_isResidue hdivisor ?_ (Int.add_modulus_modEq_iff.2 hcongruent)
    unfold IsResidue
    omega
  · have hresult : flooredMod a b = a % b := if_neg hmoved
    rw [hresult]
    refine Modulo.of_isResidue hdivisor ?_ hcongruent
    -- what is not moved is zero or has the sign of the divisor already
    have hsigns : (a % b).toInt = 0 ∨ ((a % b).toInt < 0 ↔ b.toInt < 0) := by
      rw [toInt_lt_zero, toInt_lt_zero]
      by_cases hzero : a % b = 0
      · exact .inl (by rw [hzero]; rfl)
      · exact .inr (by simpa [hzero] using hmoved)
    unfold IsResidue
    omega

end

end Operation

namespace WordKind

/-- What is said of signed words besides, where the divisor `b` is not zero: which quotient is not
exact, and that nothing overflows on the way to the modulo. -/
structure DividesSigned (a : Int64) (r : Value) (b : Int64) : Prop where
  quotient : signed.Is (Value.arithmetic .div (.integer a) r) (a.toInt.tdiv b.toInt) ↔
    ¬(a = Int64.minValue ∧ b = -1)
  remainder : (a % b).toInt = a.toInt.tmod b.toInt
  correction : ¬(a % b < 0 ↔ b < 0) → (a % b + b).toInt = (a % b).toInt + b.toInt

section

variable {r : Value} {b : Int64}

/-- **A signed word** computes with whatever converts to a signed word. -/
theorem computes_signed (h : r.checkedInt = .ok b) (a : Int64) : signed.Computes a r b := by
  have hchecked : signed.checked r = .ok b := h
  have hwraps : ∀ {op w z}, op.onIntegers a b = .ok w → w.toInt = z.bmod (2 ^ 64) →
      signed.Wraps (Value.arithmetic op (signed.value a) r) z := by
    intro op w z hw hz
    have hcongruent : w.toInt ≡ z [ZMOD 2 ^ 64] := by
      rw [hz]
      exact Int.bmod_emod
    exact wraps_of_compute hchecked hw hcongruent
  have hne : b.toInt ≠ 0 → b ≠ 0 := by
    rintro hb rfl
    exact hb rfl
  constructor
  · exact hwraps rfl (Int64.toInt_add a b)
  · exact hwraps rfl (Int64.toInt_sub a b)
  · exact hwraps rfl (Int64.toInt_mul a b)
  · intro hb
    exact hwraps (Operation.onIntegers_div a (hne hb)) (Int64.toInt_div a b)
  · intro hb
    rw [arithmetic_of_compute hchecked (Operation.onIntegers_mod a (hne hb))]
    exact ⟨_, ⟨_, rfl, rfl⟩, Operation.modulo_flooredMod a (hne hb)⟩

theorem dividesSigned (h : r.checkedInt = .ok b) (a : Int64) (hb : b ≠ 0) :
    DividesSigned a r b := by
  have hresult : Value.arithmetic .div (.integer a) r = .integer (a / b) :=
    arithmetic_of_compute (k := signed) (b := b) h (Operation.onIntegers_div a hb)
  refine ⟨?_, Int64.toInt_mod a b, Operation.toInt_remainder_add⟩
  rw [hresult, ← Operation.toInt_quotient_iff]
  constructor
  · rintro ⟨w, hw, hexact⟩
    cases hw
    exact hexact
  · intro hexact
    exact ⟨a / b, rfl, hexact⟩

end

end WordKind

/-! ## Unsigned words -/

namespace Operation

variable {b : UInt64}

theorem onUnsigned_div (a : UInt64) (hb : b ≠ 0) : div.onUnsigned a b = .ok (a / b) :=
  if_neg (by simpa [divides] using hb)

theorem onUnsigned_mod (a : UInt64) (hb : b ≠ 0) : mod.onUnsigned a b = .ok (a % b) :=
  if_neg (by simpa [divides] using hb)

/-- The remainder of unsigned words is the floored modulo as well. -/
theorem modulo_remainder (a : UInt64) (hb : b ≠ 0) :
    Modulo a.toNat b.toNat (a % b).toNat := by
  have hpos : 0 < b.toNat := Nat.pos_of_ne_zero fun h => hb (UInt64.toNat_inj.1 h)
  rw [UInt64.toNat_mod, Int.natCast_mod]
  refine Modulo.of_isResidue (by omega) ?_ (Int.mod_modEq _ _)
  have hnonneg := Int.emod_nonneg a.toNat (b := b.toNat) (by omega)
  have hlt := Int.emod_lt_of_pos a.toNat (b := b.toNat) (by omega)
  unfold IsResidue
  omega

end Operation

namespace WordKind

/-- What is said of unsigned words besides, where the divisor `b` is not zero: the quotient and the
modulo are those of the natural numbers. -/
structure DividesUnsigned (a : UInt64) (r : Value) (b : UInt64) : Prop where
  quotient : unsigned.Is (Value.arithmetic .div (.unsigned a) r) (a.toNat / b.toNat : ℕ)
  remainder : unsigned.Is (Value.arithmetic .mod (.unsigned a) r) (a.toNat % b.toNat : ℕ)

section

variable {r : Value} {b : UInt64}

/-- **An unsigned word** computes with whatever converts to an unsigned word. -/
theorem computes_unsigned (h : r.checkedUnsigned = .ok b) (a : UInt64) :
    unsigned.Computes a r b := by
  have hchecked : unsigned.checked r = .ok b := h
  have hwraps : ∀ {op w z}, op.onUnsigned a b = .ok w → (w.toNat : ℤ) ≡ z [ZMOD 2 ^ 64] →
      unsigned.Wraps (Value.arithmetic op (unsigned.value a) r) z :=
    wraps_of_compute hchecked
  have hne : (b.toNat : ℤ) ≠ 0 → b ≠ 0 := by
    rintro hb rfl
    exact hb rfl
  constructor
  · have hsum : ((a + b).toNat : ℤ) ≡ a.toNat + b.toNat [ZMOD 2 ^ 64] := by
      rw [UInt64.toNat_add]
      push_cast
      exact Int.mod_modEq _ _
    exact hwraps rfl hsum
  · have hdifference : ((a - b).toNat : ℤ) ≡ a.toNat - b.toNat [ZMOD 2 ^ 64] := by
      have hb := b.toNat_lt
      rw [UInt64.toNat_sub]
      apply Int.modEq_of_dvd
      omega
    exact hwraps rfl hdifference
  · have hproduct : ((a * b).toNat : ℤ) ≡ a.toNat * b.toNat [ZMOD 2 ^ 64] := by
      rw [UInt64.toNat_mul]
      push_cast
      exact Int.mod_modEq _ _
    exact hwraps rfl hproduct
  · intro hb
    have hquotient : ((a / b).toNat : ℤ) ≡ (a.toNat : ℤ).tdiv b.toNat [ZMOD 2 ^ 64] := by
      rw [UInt64.toNat_div, Int.ofNat_tdiv]
    exact hwraps (Operation.onUnsigned_div a (hne hb)) hquotient
  · intro hb
    rw [arithmetic_of_compute hchecked (Operation.onUnsigned_mod a (hne hb))]
    exact ⟨_, ⟨_, rfl, rfl⟩, Operation.modulo_remainder a (hne hb)⟩

theorem dividesUnsigned (h : r.checkedUnsigned = .ok b) (a : UInt64) (hb : b ≠ 0) :
    DividesUnsigned a r b := by
  have hquotient : Value.arithmetic .div (.unsigned a) r = .unsigned (a / b) :=
    arithmetic_of_compute (k := unsigned) (b := b) h (Operation.onUnsigned_div a hb)
  have hremainder : Value.arithmetic .mod (.unsigned a) r = .unsigned (a % b) :=
    arithmetic_of_compute (k := unsigned) (b := b) h (Operation.onUnsigned_mod a hb)
  constructor
  · exact ⟨a / b, hquotient, congrArg Int.ofNat (UInt64.toNat_div a b)⟩
  · exact ⟨a % b, hremainder, congrArg Int.ofNat (UInt64.toNat_mod a b)⟩

end

end WordKind

/-- **Arithmetic on words** is exact modulo 2^64, whatever the right operand is that converts to a
word of the kind of the left one. The modulo is exact altogether, as are the quotients of unsigned
words, and all quotients of signed words but one. A sum and a difference that have no error for a
result take each other back. -/
theorem Value.arithmetic_words :
    (∀ (a b : Int64) (r : Value), r.checkedInt = .ok b →
      WordKind.signed.Computes a r b ∧ (b ≠ 0 → WordKind.DividesSigned a r b)) ∧
    (∀ (a b : UInt64) (r : Value), r.checkedUnsigned = .ok b →
      WordKind.unsigned.Computes a r b ∧ (b ≠ 0 → WordKind.DividesUnsigned a r b)) ∧
    (∀ (a : Int64) (r : Value), (arithmetic .add (.integer a) r).isError = false →
      WordKind.signed.RoundTrips a r) ∧
    ∀ (a : UInt64) (r : Value), (arithmetic .add (.unsigned a) r).isError = false →
      WordKind.unsigned.RoundTrips a r := by
  refine ⟨?_, ?_, ?_, ?_⟩
  · intro a b r h
    exact ⟨WordKind.computes_signed h a, WordKind.dividesSigned h a⟩
  · intro a b r h
    exact ⟨WordKind.computes_unsigned h a, WordKind.dividesUnsigned h a⟩
  · intro a r hsum
    obtain ⟨b, h⟩ := WordKind.exists_checked (k := WordKind.signed) hsum
    exact WordKind.roundTrips_of_computes (WordKind.computes_signed h) a
  · intro a r hsum
    obtain ⟨b, h⟩ := WordKind.exists_checked (k := WordKind.unsigned) hsum
    exact WordKind.roundTrips_of_computes (WordKind.computes_unsigned h) a

/-- The least signed word and minus one, which is what is left of a float: this is the quotient that
wraps. Below zero there is no unsigned word, so that a difference wraps, and a sum takes it back. -/
theorem Value.arithmetic_words_least :
    (Value.float (-1.5)).checkedInt = .ok (-1) ∧ (-1 : Int64) ≠ 0 ∧
      WordKind.signed.Computes Int64.minValue (.float (-1.5)) (-1) ∧
      ¬WordKind.signed.Is (arithmetic .div (.integer Int64.minValue) (.float (-1.5))) (2 ^ 63) ∧
      (Value.integer 5).checkedUnsigned = .ok 5 ∧ (5 : UInt64) ≠ 0 ∧
      WordKind.unsigned.Computes 3 (.integer 5) 5 ∧
      WordKind.unsigned.Is (arithmetic .mod (.unsigned 3) (.integer 5)) 3 ∧
      (arithmetic .add (.integer Int64.maxValue) (.boolean true)).isError = false ∧
      WordKind.signed.RoundTrips Int64.maxValue (.boolean true) ∧
      (arithmetic .add (.unsigned 3) (.integer 5)).isError = false ∧
      WordKind.unsigned.RoundTrips 3 (.integer 5) := by
  obtain ⟨hsigned, hunsigned, hback, hback'⟩ := arithmetic_words
  have hminus : (Value.float (-1.5)).checkedInt = .ok (-1) := by decide
  have hfive : (Value.integer 5).checkedUnsigned = .ok 5 := by decide
  obtain ⟨hleast, hdivides⟩ := hsigned Int64.minValue (-1) (.float (-1.5)) hminus
  obtain ⟨hthree, hdivides'⟩ := hunsigned 3 5 (.integer 5) hfive
  have hwraps : ¬WordKind.signed.Is (arithmetic .div (.integer Int64.minValue) (.float (-1.5)))
      (2 ^ 63) := fun hexact => (hdivides (by decide)).quotient.1 hexact ⟨rfl, rfl⟩
  have hsum : (arithmetic .add (.integer Int64.maxValue) (.boolean true)).isError = false := rfl
  have hsum' : (arithmetic .add (.unsigned 3) (.integer 5)).isError = false := by decide
  exact ⟨hminus, by decide, hleast, hwraps, hfive, by decide, hthree,
    (hdivides' (by decide)).remainder, hsum, hback _ _ hsum, hsum', hback' _ _ hsum'⟩

end ReversePolish
