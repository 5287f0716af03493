import ReversePolish.Proofs.Value.Ordering
/-!
# Converting to words

A checked conversion gives the word of the integer that is left of a value when its fraction is cut
off, and is refused if that integer is out of range. The best-effort conversion does not fail. Where
the checked one succeeds it gives the same word, and otherwise it wraps an integer and lets a float
stop at the end of the range.

Signed and unsigned words have this in common (`WordRange`). The ends of their ranges are not floats
next to floats that fit, so everything is said of the exact numbers.
-/

namespace ReversePolish

/-! ## Cutting off the fraction -/

namespace Binary64

open Float.Model (UnpackedFloat)
open Float.Model.UnpackedFloat (Sign)

variable {q : ℚ} {m : ℕ} {e z low high : ℤ} {x : Float} {s : Sign}

/-- The integer that is left when the fraction is cut off, which is the next one toward zero. -/
def truncated (q : ℚ) : ℤ := if 0 ≤ q then ⌊q⌋ else ⌈q⌉

theorem truncated_neg (q : ℚ) : truncated (-q) = -truncated q := by
  unfold truncated
  rcases lt_trichotomy q 0 with hq | rfl | hq
  · rw [if_pos (by linarith), if_neg (by linarith), Int.floor_neg]
  · simp
  · rw [if_neg (by linarith), if_pos hq.le, Int.ceil_neg]

@[simp] theorem truncated_intCast (z : ℤ) : truncated z = z := by
  simp [truncated]

theorem truncated_le (h : q ≤ z) (hz : z ≤ 0) : truncated q ≤ z := by
  have hzero : (z : ℚ) ≤ 0 := mod_cast hz
  unfold truncated
  split
  · exact Int.floor_le_iff.2 (by linarith)
  · exact Int.ceil_le.2 h

theorem le_truncated (h : z ≤ q) (hz : 0 ≤ z) : z ≤ truncated q := by
  have hzero : (0 : ℚ) ≤ z := mod_cast hz
  rw [truncated, if_pos (by linarith)]
  exact Int.le_floor.2 h

theorem integerPart_eq_truncated : (integerPart m e : ℤ) = truncated (m * 2 ^ e) := by
  have hnonneg : (0 : ℚ) ≤ m * 2 ^ e := by positivity
  rw [truncated, if_pos hnonneg, integerPart]
  split
  · next he =>
    obtain ⟨k, rfl⟩ := Int.eq_ofNat_of_zero_le he
    have hcast : (m * 2 ^ k : ℚ) = (m * 2 ^ k : ℕ) := by push_cast; rfl
    rw [Int.toNat_natCast, Nat.shiftLeft_eq, zpow_natCast, hcast, Int.floor_natCast]
  · next he =>
    obtain ⟨k, hk⟩ := Int.eq_ofNat_of_zero_le (show 0 ≤ -e by omega)
    obtain rfl : e = -k := by omega
    have hcast : (m / 2 ^ k : ℚ) = m / (2 ^ k : ℕ) := by push_cast; rfl
    rw [neg_neg, Int.toNat_natCast, Nat.shiftRight_eq_div_pow, zpow_neg, zpow_natCast,
      ← div_eq_mul_inv, hcast, Rat.floor_natCast_div_natCast, Int.natCast_div]

theorem truncate?_eq (x : Float) : truncate? x = (rational? x).map truncated := by
  unfold truncate? rational?
  cases x.toModel.unpack with
  | infinity | notANumber => rfl
  | zero sign => simp [numberOf, truncated]
  | finite sign m e h =>
    cases sign with
    | positive => simp [numberOf, Sign.apply, integerPart_eq_truncated]
    | negative => simp [numberOf, Sign.apply, integerPart_eq_truncated, truncated_neg]

/-! ## Stopping at the ends of a range -/

theorem saturate_of_truncate? (h : truncate? x = some z) :
    saturate low high x = max low (min z high) := by
  rw [saturate, h]

/-- What is not a number becomes zero. -/
theorem saturate_of_place?_none (h : place? x = none) : saturate low high x = 0 := by
  have hunpack := unpack_of_place?_none h
  have hnan : x.isNaN = true := by
    change x.toModel.unpack.isNaN = true
    rw [hunpack]
    rfl
  unfold saturate truncate?
  simp only [hunpack, hnan, if_true]

theorem saturate_infinity (h : x.toModel.unpack = .infinity s) :
    saturate low high x = match s with
      | .negative => low
      | .positive => high := by
  have hnan : x.isNaN = false := by
    change x.toModel.unpack.isNaN = false
    rw [h]
    rfl
  have hzero : (0.0 : Float).toModel.unpack = .zero .positive := rfl
  have hcompare : (UnpackedFloat.infinity s).compare (.zero .positive)
      = some (match s with | .negative => .lt | .positive => .gt) := by cases s <;> rfl
  unfold saturate truncate?
  simp only [h, hnan, lt_iff_compare, hzero, hcompare, Bool.false_eq_true, if_false]
  cases s <;> simp

/-- What is below the range becomes its lower end. -/
theorem saturate_of_lt {p : Place} (hp : place? x = some p) (h : p < .ofRational low)
    (hlow : low ≤ 0) : saturate low high x = low := by
  rcases placeOf_cases hp with ⟨hx, -⟩ | ⟨-, rfl⟩ | ⟨q, hq, rfl⟩
  · rw [saturate_infinity hx]
  · exact absurd h (Place.ofRational_lt_top low).not_gt
  · have htruncate : truncate? x = some (truncated q) := by
      rw [truncate?_eq, rational?, hq, Option.map_some]
    have hsmall := truncated_le (Place.ofRational_lt.1 h).le hlow
    rw [saturate_of_truncate? htruncate]
    omega

/-- What is above the range becomes its upper end. -/
theorem saturate_of_le {p : Place} (hp : place? x = some p) (h : .ofRational high ≤ p)
    (hhigh : 0 ≤ high) (hle : low ≤ high) : saturate low high x = high := by
  rcases placeOf_cases hp with ⟨-, rfl⟩ | ⟨hx, -⟩ | ⟨q, hq, rfl⟩
  · exact absurd h (Place.bot_lt_ofRational high).not_ge
  · rw [saturate_infinity hx]
  · have htruncate : truncate? x = some (truncated q) := by
      rw [truncate?_eq, rational?, hq, Option.map_some]
    have hlarge := le_truncated (Place.ofRational_le.1 h) hhigh
    rw [saturate_of_truncate? htruncate]
    omega

end Binary64

/-! ## The two conversions -/

namespace Value

/-- The rational number that a numeric value denotes, if it is finite. -/
def rational? : Value → Option ℚ
  | .float x => Binary64.rational? x
  | v => v.integer?.map Int.cast

variable {v : Value} {n : Number}

theorem integer?_of_number? (h : v.number? = some n) : v.integer? = n.integer? := by
  cases v with
  | null | error | string => cases h
  | boolean b =>
    cases h
    cases b <;> rfl
  | number =>
    cases h
    cases n <;> rfl

/-- The integer of a number is what it denotes, cut off. -/
theorem truncate?_of_number? (h : v.number? = some n) :
    n.truncate? = v.rational?.map Binary64.truncated := by
  cases v with
  | null | error | string => cases h
  | boolean b =>
    cases h
    cases b <;> exact congrArg some (Binary64.truncated_intCast _).symm
  | number =>
    cases h
    cases n with
    | float x => exact Binary64.truncate?_eq x
    | integer | unsigned => exact congrArg some (Binary64.truncated_intCast _).symm

end Value

/-- The integer that the best-effort conversion of a float gives if it is not in the range from
`low` up to `high`, which is itself not in the range. -/
def Binary64.SaturatesAt (low high : ℤ) (x : Float) (z : ℤ) : Prop :=
  match Binary64.place? x with
  | none => z = 0
  | some p => (p < .ofRational low → z = low) ∧ (.ofRational high ≤ p → z = high - 1)

/-- What a checked and a best-effort conversion have to do with a value and with each other. The
words are the integers from `low` up to `high`, which is itself none. -/
structure Converts {α : Type} (v : Value) (low high : ℤ) (toInt : α → ℤ)
    (checked : Except ValueError α) (best : α) : Prop where
  ok_iff (w : α) : checked = .ok w ↔ ∃ q, v.rational? = some q ∧
    low ≤ Binary64.truncated q ∧ Binary64.truncated q < high ∧ toInt w = Binary64.truncated q
  agrees (w : α) : checked = .ok w → best = w
  impossible_iff : checked = .error .impossibleConversion ↔
    v = .null ∨ (∃ code, v = .error code) ∨ ∃ s, v = .string s
  outOfRange : checked ≠ .error .impossibleConversion → (∀ w, checked ≠ .ok w) →
    checked = .error .outOfRangeConversion
  wraps (z : ℤ) : v.integer? = some z → toInt best ≡ z [ZMOD 2 ^ 64]
  saturates (x : Float) : v = .float x → Binary64.SaturatesAt low high x (toInt best)

/-- A kind of words with the two conversions of numbers to it. Every integer has a word modulo
`2 ^ 64`. -/
structure WordRange (α : Type) where
  low : ℤ
  toInt : α → ℤ
  ofInt : ℤ → α
  checked : Number → Except ValueError α
  best : Number → α
  low_nonpos : low ≤ 0
  low_gt : -2 ^ 64 < low
  le_toInt (w : α) : low ≤ toInt w
  toInt_lt (w : α) : toInt w < low + 2 ^ 64
  ofInt_toInt (w : α) : ofInt (toInt w) = w
  toInt_modEq (z : ℤ) : toInt (ofInt z) ≡ z [ZMOD 2 ^ 64]
  checked_eq (n : Number) : checked n = match n.truncate? with
    | some z => if low ≤ z ∧ z < low + 2 ^ 64 then .ok (ofInt z) else .error .outOfRangeConversion
    | none => .error .outOfRangeConversion
  best_word (n : Number) (z : ℤ) : n.integer? = some z → best n = ofInt z
  best_float (x : Float) : best (.float x) = ofInt (Binary64.saturate low (low + 2 ^ 64 - 1) x)

namespace WordRange

variable {α : Type} (k : WordRange α) {n : Number} {v : Value} {z : ℤ} {w : α}

theorem toInt_ofInt (hlow : k.low ≤ z) (hhigh : z < k.low + 2 ^ 64) : k.toInt (k.ofInt z) = z := by
  have hle := k.le_toInt (k.ofInt z)
  have hlt := k.toInt_lt (k.ofInt z)
  have hmod := (k.toInt_modEq z).dvd
  omega

theorem checked_eq_ok :
    k.checked n = .ok w ↔ ∃ z, n.truncate? = some z ∧ k.low ≤ z ∧ z < k.low + 2 ^ 64 ∧
      k.toInt w = z := by
  rw [k.checked_eq]
  cases n.truncate? with
  | none => simp
  | some z =>
    dsimp only
    split
    · next hz =>
      simp only [Except.ok.injEq, Option.some.injEq, exists_eq_left', hz, true_and]
      constructor
      · rintro rfl
        exact k.toInt_ofInt hz.1 hz.2
      · rintro rfl
        exact k.ofInt_toInt w
    · next hz =>
      simp only [reduceCtorEq, Option.some.injEq, exists_eq_left', false_iff]
      exact fun h => hz ⟨h.1, h.2.1⟩

theorem checked_cases (n : Number) :
    (∃ w, k.checked n = .ok w) ∨ k.checked n = .error .outOfRangeConversion := by
  rw [k.checked_eq]
  cases n.truncate? with
  | none => exact .inr rfl
  | some z =>
    dsimp only
    split
    · exact .inl ⟨_, rfl⟩
    · exact .inr rfl

theorem best_eq_of_checked (h : k.checked n = .ok w) : k.best n = w := by
  obtain ⟨z, hz, hlow, hhigh, rfl⟩ := k.checked_eq_ok.1 h
  cases n with
  | integer i => rw [k.best_word (.integer i) _ hz, k.ofInt_toInt]
  | unsigned u => rw [k.best_word (.unsigned u) _ hz, k.ofInt_toInt]
  | float x =>
    have hrange : max k.low (min (k.toInt w) (k.low + 2 ^ 64 - 1)) = k.toInt w := by omega
    rw [k.best_float, Binary64.saturate_of_truncate? hz, hrange, k.ofInt_toInt]

theorem saturatesAt_best (x : Float) :
    Binary64.SaturatesAt k.low (k.low + 2 ^ 64) x (k.toInt (k.best (.float x))) := by
  have hlow := k.low_nonpos
  have hhigh := k.low_gt
  unfold Binary64.SaturatesAt
  rw [k.best_float]
  cases hp : Binary64.place? x with
  | none =>
    rw [Binary64.saturate_of_place?_none hp]
    exact k.toInt_ofInt hlow (by omega)
  | some p =>
    constructor
    · intro h
      rw [Binary64.saturate_of_lt hp h hlow]
      exact k.toInt_ofInt le_rfl (by omega)
    · intro h
      have hle : .ofRational (k.low + 2 ^ 64 - 1 : ℤ) ≤ p :=
        (Binary64.Place.ofRational_le.2 (by push_cast; linarith)).trans h
      rw [Binary64.saturate_of_le hp hle (by omega) (by omega)]
      exact k.toInt_ofInt (by omega) (by omega)

/-- A value that is no number is refused by the checked conversion. -/
theorem converts_of_number?_none (h : v.number? = none) (best : α) :
    Converts v k.low (k.low + 2 ^ 64) k.toInt (v.checkedNumber >>= k.checked) best := by
  have hchecked : v.checkedNumber >>= k.checked = .error .impossibleConversion := by
    rw [Value.checkedNumber, h]
    rfl
  cases v with
  | boolean | number => cases h
  | null | error | string =>
    constructor <;> simp [hchecked, Value.rational?, Value.integer?]

theorem converts_of_number? (h : v.number? = some n) :
    Converts v k.low (k.low + 2 ^ 64) k.toInt (k.checked n) (k.best n) where
  ok_iff w := by
    rw [k.checked_eq_ok, Value.truncate?_of_number? h]
    simp only [Option.map_eq_some_iff]
    constructor
    · rintro ⟨_, ⟨q, hq, rfl⟩, hlow, hhigh, hw⟩
      exact ⟨q, hq, hlow, hhigh, hw⟩
    · rintro ⟨q, hq, hlow, hhigh, hw⟩
      exact ⟨_, ⟨q, hq, rfl⟩, hlow, hhigh, hw⟩
  agrees w := k.best_eq_of_checked
  impossible_iff := by
    have hnumber : k.checked n ≠ .error .impossibleConversion := by
      rcases k.checked_cases n with ⟨w, hw⟩ | hrange <;> simp [*]
    cases v with
    | null | error | string => cases h
    | boolean | number => simp [hnumber]
  outOfRange _ hok := (k.checked_cases n).resolve_left fun ⟨w, hw⟩ => hok w hw
  wraps z hz := by
    rw [Value.integer?_of_number? h] at hz
    rw [k.best_word n z hz]
    exact k.toInt_modEq z
  saturates x hx := by
    subst hx
    cases h
    exact k.saturatesAt_best x

/-- **The two conversions of a value** to words of a kind. -/
theorem converts (v : Value) :
    Converts v k.low (k.low + 2 ^ 64) k.toInt (v.checkedNumber >>= k.checked)
      (v.readNumber?.elim (k.ofInt 0) k.best) := by
  cases h : v.number? with
  | none => exact k.converts_of_number?_none h _
  | some n =>
    have hchecked : v.checkedNumber >>= k.checked = k.checked n := by
      rw [Value.checkedNumber, h]
      rfl
    have hread : v.readNumber? = some n := by
      cases v with
      | string => cases h
      | null | error | boolean | number => exact h
    rw [hchecked, hread]
    exact k.converts_of_number? h

end WordRange

/-! ## Signed and unsigned words -/

theorem Number.fitsInteger_iff {z : ℤ} :
    Number.fitsInteger z = true ↔ -2 ^ 63 ≤ z ∧ z < 2 ^ 63 := by
  have hleast : Int64.minValue.toInt = -2 ^ 63 := by decide
  have hgreatest : Int64.maxValue.toInt = 2 ^ 63 - 1 := by decide
  simp only [Number.fitsInteger, hleast, hgreatest, Bool.and_eq_true, decide_eq_true_eq]
  omega

theorem Number.fitsUnsigned_iff {z : ℤ} : Number.fitsUnsigned z = true ↔ 0 ≤ z ∧ z < 2 ^ 64 := by
  simp only [Number.fitsUnsigned, Bool.and_eq_true, decide_eq_true_eq]
  rfl

theorem toNat_ofInt (z : ℤ) : ((UInt64.ofInt z).toNat : ℤ) = z % 2 ^ 64 := by
  have hnonneg : 0 ≤ z % 2 ^ 64 := by omega
  have hlt : (z % 2 ^ 64).toNat < 2 ^ 64 := by omega
  rw [UInt64.ofInt, UInt64.toNat_ofNat', Nat.mod_eq_of_lt hlt, Int.toNat_of_nonneg hnonneg]

theorem ofInt_toNat (u : UInt64) : UInt64.ofInt u.toNat = u := by
  have hlt := u.toNat_lt
  apply UInt64.toNat_inj.1
  zify
  rw [toNat_ofInt]
  omega

theorem toInt64_eq_ofInt (u : UInt64) : u.toInt64 = Int64.ofInt u.toNat := by
  rw [Int64.ofInt_eq_ofNat, ← UInt64.toInt64_ofNat', UInt64.ofNat_toNat]

theorem toUInt64_eq_ofInt (i : Int64) : i.toUInt64 = UInt64.ofInt i.toInt := by
  have hbits : i.toInt = (i.toUInt64.toNat : ℤ).bmod (2 ^ 64) := BitVec.toInt_eq_toNat_bmod _
  have hmod := Int.bmod_emod (x := i.toUInt64.toNat) (m := 2 ^ 64)
  have hlt := i.toUInt64.toNat_lt
  apply UInt64.toNat_inj.1
  zify
  rw [toNat_ofInt, hbits]
  omega

def WordRange.signed : WordRange Int64 where
  low := -2 ^ 63
  toInt := Int64.toInt
  ofInt := Int64.ofInt
  checked := Number.checkedInt
  best := Number.toInt
  low_nonpos := by norm_num
  low_gt := by norm_num
  le_toInt w := w.le_toInt
  toInt_lt w := w.toInt_lt
  ofInt_toInt := Int64.ofInt_toInt
  toInt_modEq z := by
    rw [Int64.toInt_ofInt]
    exact Int.bmod_emod
  checked_eq n := by
    unfold Number.checkedInt
    simp only [Number.fitsInteger_iff]
    rfl
  best_word n z h := by
    cases n with
    | float => cases h
    | integer i =>
      cases h
      exact i.ofInt_toInt.symm
    | unsigned u =>
      cases h
      exact toInt64_eq_ofInt u
  best_float x := rfl

def WordRange.unsigned : WordRange UInt64 where
  low := 0
  toInt u := u.toNat
  ofInt := UInt64.ofInt
  checked := Number.checkedUnsigned
  best := Number.toUnsigned
  low_nonpos := le_rfl
  low_gt := by norm_num
  le_toInt w := by omega
  toInt_lt w := by
    have := w.toNat_lt
    omega
  ofInt_toInt := ofInt_toNat
  toInt_modEq z := by
    rw [toNat_ofInt]
    exact Int.mod_modEq z _
  checked_eq n := by
    unfold Number.checkedUnsigned
    simp only [Number.fitsUnsigned_iff]
    rfl
  best_word n z h := by
    cases n with
    | float => cases h
    | integer i =>
      cases h
      exact toUInt64_eq_ofInt i
    | unsigned u =>
      cases h
      exact (ofInt_toNat u).symm
  best_float x := rfl

/-- **Checked conversions are exact**, and the best-effort ones agree with them. Where a value is
out of range, an integer wraps, and a float stops at the end of the range. -/
theorem Value.conversions (v : Value) :
    Converts v (-2 ^ 63) (2 ^ 63) Int64.toInt v.checkedInt v.toInt ∧
      Converts v 0 (2 ^ 64) (fun u => (u.toNat : ℤ)) v.checkedUnsigned v.toUnsigned := by
  constructor
  · have hconverts := WordRange.signed.converts v
    have hhigh : WordRange.signed.low + 2 ^ 64 = 2 ^ 63 := by decide
    rw [hhigh] at hconverts
    exact hconverts
  · have hconverts := WordRange.unsigned.converts v
    have hhigh : WordRange.unsigned.low + 2 ^ 64 = 2 ^ 64 := zero_add _
    rw [hhigh] at hconverts
    exact hconverts

/-- The float nearest to the greatest signed word is one too large to be a signed word. -/
example :
    let v : Value := .float (Binary64.ofInt Int64.maxValue.toInt)
    v.checkedUnsigned = .ok 9223372036854775808 ∧ v.checkedInt = .error .outOfRangeConversion ∧
      v.toInt = Int64.maxValue := by
  decide +kernel

end ReversePolish
