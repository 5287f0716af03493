import ReversePolish.Proofs.Binary64.Integers
import ReversePolish.Value.Order
/-!
# The order of values

Numbers are compared in two ways, exactly if both are words and as floats if one of them is a float,
and a chain of comparisons may change from one way to the other. The order is transitive all the
same. Converting a word to a float rounds it but never moves it past another word: a comparison of
words, read off their floats, can only turn from `<` to `≤`, and a comparison with a float in it is
strict (`Number.places_of_order?`).

Values of different kinds, null and errors have no order. So `<` on all values is a strict partial
order, `>` is its converse, and on words and on strings it is the order of the integers and that of
the lexicon (`Value.strict_order`).
-/

namespace ReversePolish

open Ordering (Compares)

/-! ## Numbers -/

namespace Number

variable {a b c : Number} {o : Ordering} {x y : ℤ}

/-- A word has the place of the float that it is rounded to. -/
theorem place?_of_integer? (h : a.integer? = some x) :
    Binary64.place? a.toFloat = some (.ofRational (Binary64.nearestInt x)) := by
  rw [Binary64.place?_eq_ofRational]
  cases a with
  | integer i =>
    cases h
    have hlower := i.le_toInt
    have hupper := i.toInt_lt
    exact Binary64.rational?_ofInt (by omega)
  | unsigned u =>
    cases h
    have hupper := u.toNat_lt
    exact Binary64.rational?_ofInt (by omega)
  | float x => cases h

theorem isFinite_of_integer? (h : a.integer? = some x) : a.toFloat.isFinite :=
  Binary64.isFinite_iff.2 ⟨_, Binary64.place?_eq_ofRational.1 (place?_of_integer? h)⟩

theorem order?_of_integer? (ha : a.integer? = some x) (hb : b.integer? = some y) :
    a.order? b = some (compare x y) := by
  simp only [order?, ha, hb]

theorem order?_of_float (h : a.integer? = none ∨ b.integer? = none) :
    a.order? b = Binary64.order? a.toFloat b.toFloat := by
  unfold order?
  rcases h with h | h <;> rw [h]
  cases a.integer? <;> rfl

/-- Of two numbers one is a float, or both are words. -/
theorem float_or_words (a b : Number) : (a.integer? = none ∨ b.integer? = none) ∨
    ∃ x y, a.integer? = some x ∧ b.integer? = some y := by
  cases a.integer? <;> cases b.integer? <;> simp

/-- **Every comparison** holds of the places as well, except that words may share their place. -/
theorem places_of_order? (h : a.order? b = some o) :
    ∃ p q, Binary64.place? a.toFloat = some p ∧ Binary64.place? b.toFloat = some q ∧
      (o = .lt → p ≤ q) ∧ (a.integer? = none ∨ b.integer? = none → o.Compares p q) := by
  rcases float_or_words a b with hfloat | ⟨x, y, ha, hb⟩
  · rw [order?_of_float hfloat] at h
    obtain ⟨p, q, hp, hq, hpq⟩ := Binary64.order?_eq_some.1 h
    refine ⟨p, q, hp, hq, ?_, fun _ => hpq⟩
    rintro rfl
    exact (hpq : p < q).le
  · rw [order?_of_integer? ha hb, Option.some.injEq] at h
    refine ⟨_, _, place?_of_integer? ha, place?_of_integer? hb, ?_, by simp [ha, hb]⟩
    rintro rfl
    exact Binary64.Place.ofRational_le.2 (Binary64.nearestInt_mono (compare_lt_iff_lt.1 h).le)

theorem order?_swap (a b : Number) : b.order? a = (a.order? b).map Ordering.swap := by
  rcases float_or_words a b with hfloat | ⟨x, y, ha, hb⟩
  · rw [order?_of_float hfloat, order?_of_float hfloat.symm]
    ext o
    simp only [Option.map_eq_some_iff, Binary64.order?_eq_some]
    constructor
    · rintro ⟨q, p, hq, hp, hqp⟩
      exact ⟨o.swap, ⟨p, q, hp, hq, Ordering.compares_swap.2 hqp⟩, Ordering.swap_swap⟩
    · rintro ⟨o, ⟨p, q, hp, hq, hpq⟩, rfl⟩
      exact ⟨q, p, hq, hp, Ordering.compares_swap.2 hpq⟩
  · rw [order?_of_integer? ha hb, order?_of_integer? hb ha, Option.map_some,
      ← Std.OrientedCmp.eq_swap]

/-- **The order of numbers is transitive**, also where it is exact for one pair and that of the
floats for another. -/
theorem order?_trans (hab : a.order? b = some .lt) (hbc : b.order? c = some .lt) :
    a.order? c = some .lt := by
  obtain ⟨p, q, hp, hq, hle, hlt⟩ := places_of_order? hab
  obtain ⟨q', r, hq', hr, hle', hlt'⟩ := places_of_order? hbc
  obtain rfl : q = q' := Option.some.inj (hq.symm.trans hq')
  cases ha : a.integer? with
  | none =>
    have hpr : p < r := lt_of_lt_of_le (hlt (.inl ha)) (hle' rfl)
    rw [order?_of_float (.inl ha)]
    exact Binary64.order?_eq_some.2 ⟨p, r, hp, hr, hpr⟩
  | some x =>
    cases hc : c.integer? with
    | none =>
      have hpr : p < r := lt_of_le_of_lt (hle rfl) (hlt' (.inr hc))
      rw [order?_of_float (.inr hc)]
      exact Binary64.order?_eq_some.2 ⟨p, r, hp, hr, hpr⟩
    | some z =>
      rw [order?_of_integer? ha hc, Option.some.injEq, compare_lt_iff_lt]
      cases hb : b.integer? with
      | none =>
        -- a float between two words keeps their floats apart, and so the words
        have hpr : p < r := lt_trans (hlt (.inr hb)) (hlt' (.inl hb))
        rw [place?_of_integer? ha, Option.some.injEq] at hp
        rw [place?_of_integer? hc, Option.some.injEq] at hr
        rw [← hp, ← hr, Binary64.Place.ofRational_lt] at hpr
        exact Binary64.nearestInt_mono.reflect_lt hpr
      | some y =>
        rw [order?_of_integer? ha hb, Option.some.injEq, compare_lt_iff_lt] at hab
        rw [order?_of_integer? hb hc, Option.some.injEq, compare_lt_iff_lt] at hbc
        exact hab.trans hbc

end Number

/-! ## Values -/

namespace Value

/-- The integer that a boolean, an integer or an unsigned integer is. -/
def integer? : Value → Option ℤ
  | .boolean b => some (if b then 1 else 0)
  | .integer i => some i.toInt
  | .unsigned u => some u.toNat
  | .null | .error _ | .float _ | .string _ => none

/-- Two values compare in the way in which `x` and `y` do. -/
structure ComparesAs {α : Type} [LinearOrder α] (a b : Value) (x y : α) : Prop where
  lt : a.lt b ↔ x < y
  gt : a.gt b ↔ x > y
  le : a.le b ↔ x ≤ y
  ge : a.ge b ↔ x ≥ y
  equal : a.equal b ↔ x = y
  compare : a.compare b = .ok (cmp x y)

variable {a b c : Value} {n m : Number} {o : Ordering}

theorem order?_of_number? (ha : a.number? = some n) (hb : b.number? = some m) :
    a.order? b = n.order? m := by
  cases a with
  | null | error | string => cases ha
  | boolean | number =>
    cases b with
    | null | error | string => cases hb
    | boolean | number =>
      cases ha
      cases hb
      rfl

/-- Only two strings or two numbers have an order. -/
theorem order?_eq_some : a.order? b = some o ↔
    (∃ s t, a = .string s ∧ b = .string t ∧ Ord.compare s t = o) ∨
      ∃ n m, a.number? = some n ∧ b.number? = some m ∧ n.order? m = some o := by
  cases a with
  | null | error => simp [order?, number?]
  | boolean | number =>
    cases b <;> simp [order?, number?]
  | string s => cases b <;> simp [order?, number?]

/-- **The three-way comparison** succeeds where there is an order, and tells it. -/
theorem compare_eq_ok : a.compare b = .ok o ↔ a.order? b = some o := by
  unfold compare
  split
  · simp [order?, number?]
  · cases a <;> simp [order?, number?]
  · simp [order?, number?]
  · cases a <;> simp [order?, number?]
  · cases h : a.order? b with
    | some o' => simp
    | none => cases a.sameKind b <;> simp

theorem order?_swap (a b : Value) : b.order? a = (a.order? b).map Ordering.swap := by
  cases a with
  | null | error => cases b <;> rfl
  | string s =>
    cases b with
    | string t => exact congrArg some Std.OrientedCmp.eq_swap
    | null | error | boolean | number => rfl
  | boolean | number =>
    cases b with
    | null | error | string => rfl
    | boolean | number =>
      rw [order?_of_number? rfl rfl, order?_of_number? rfl rfl]
      exact Number.order?_swap _ _

theorem lt_iff : a.lt b ↔ a.order? b = some .lt := by
  rw [lt, beq_iff_eq]

theorem gt_iff : a.gt b ↔ a.order? b = some .gt := by
  rw [gt, beq_iff_eq]

/-- What is above is what the other is below. -/
theorem gt_eq_lt (a b : Value) : a.gt b = b.lt a := by
  rw [Bool.eq_iff_iff, gt_iff, lt_iff, order?_swap a b]
  cases a.order? b with
  | none => simp
  | some o => cases o <;> simp

theorem lt_irrefl (a : Value) : a.lt a = false := by
  rw [Bool.eq_false_iff, ne_eq, lt_iff]
  intro h
  have hswap := order?_swap a a
  rw [h] at hswap
  cases hswap

theorem lt_trans (hab : a.lt b) (hbc : b.lt c) : a.lt c := by
  rw [lt_iff, order?_eq_some] at *
  rcases hab with ⟨s, t, rfl, rfl, hst⟩ | ⟨n, m, hn, hm, hnm⟩
  · rcases hbc with ⟨t', u, ht, rfl, htu⟩ | ⟨m, k, hm, -, -⟩
    · cases ht
      exact .inl ⟨s, u, rfl, rfl, Std.TransCmp.lt_trans hst htu⟩
    · cases hm
  · rcases hbc with ⟨t', u, rfl, -, -⟩ | ⟨m', k, hm', hk, hmk⟩
    · cases hm
    · obtain rfl : m = m' := Option.some.inj (hm.symm.trans hm')
      exact .inr ⟨n, k, hn, hk, Number.order?_trans hnm hmk⟩

theorem lt_asymm (h : a.lt b) : b.lt a = false := by
  rw [Bool.eq_false_iff]
  intro hba
  have hself := lt_trans h hba
  rw [lt_irrefl] at hself
  cases hself

/-! ### Words and strings -/

theorem number?_of_integer? {x : ℤ} (h : a.integer? = some x) :
    ∃ n, a.number? = some n ∧ n.integer? = some x := by
  cases a with
  | null | error | string => cases h
  | boolean b => cases b <;> exact ⟨_, rfl, h⟩
  | number n =>
    cases n with
    | float => cases h
    | integer | unsigned => exact ⟨_, rfl, h⟩

/-- Where the order and equality are those of `x` and `y`, the predicates are as well. -/
theorem comparesAs_of_order? {α : Type} [LinearOrder α] {x y : α} (hkind : a.sameKind b = true)
    (horder : a.order? b = some (cmp x y)) (hequal : a.equal b ↔ x = y) : a.ComparesAs b x y := by
  have hlt : a.lt b ↔ x < y := by rw [lt_iff, horder, Option.some.injEq, cmp_eq_lt_iff]
  have hgt : a.gt b ↔ x > y := by rw [gt_iff, horder, Option.some.injEq, cmp_eq_gt_iff]
  refine ⟨hlt, hgt, ?_, ?_, hequal, compare_eq_ok.2 horder⟩
  · rw [le, hkind, Bool.true_and, Bool.or_eq_true, hlt, hequal, le_iff_lt_or_eq]
  · rw [ge, hkind, Bool.true_and, Bool.or_eq_true, hgt, hequal, ge_iff_le, le_iff_lt_or_eq,
      eq_comm (a := x)]

theorem equal_of_number? (ha : a.number? = some n) (hb : b.number? = some m) :
    a.equal b = n.equal m := by
  cases a with
  | null | error | string => cases ha
  | boolean | number =>
    cases b with
    | null | error | string => cases hb
    | boolean | number =>
      cases ha
      cases hb
      rfl

/-- Words compare as integers, without wrapping. -/
theorem comparesAs_of_integer? {x y : ℤ} (ha : a.integer? = some x) (hb : b.integer? = some y) :
    a.ComparesAs b x y := by
  obtain ⟨n, hn, hx⟩ := number?_of_integer? ha
  obtain ⟨m, hm, hy⟩ := number?_of_integer? hb
  refine comparesAs_of_order? ?_ ?_ ?_
  · simp [sameKind, isNumeric, hn, hm]
  · rw [order?_of_number? hn hm, Number.order?_of_integer? hx hy]
    exact congrArg some (cmp_eq_compare x y).symm
  · rw [equal_of_number? hn hm]
    simp [Number.equal, hx, hy]

/-- Strings compare as their lists of characters. -/
theorem comparesAs_string (s t : String) :
    (Value.string s).ComparesAs (.string t) s.toList t.toList := by
  refine comparesAs_of_order? rfl ?_ ?_
  · have hcompares : (Ord.compare s t).Compares s.toList t.toList := by
      rcases lt_trichotomy s t with h | rfl | h
      · rw [compare_lt_iff_lt.2 h]
        exact String.lt_iff_toList_lt.1 h
      · rw [compare_eq_iff_eq.2 rfl]
        rfl
      · rw [compare_gt_iff_gt.2 h]
        exact String.lt_iff_toList_lt.1 h
    exact congrArg some hcompares.cmp_eq.symm
  · simp [equal, String.toList_inj]

end Value

/-- **Less than** is a strict partial order on the values of all kinds, however the comparisons of a
chain are made. Greater than is its converse, and turning around a three-way comparison that
succeeds reverses its outcome. Booleans, integers and unsigned integers, in any mix, are ordered and
equal as the integers that they are, and strings as their lists of characters, lexicographically. -/
theorem Value.strict_order :
    (∀ a : Value, a.lt a = false) ∧
    (∀ a b : Value, a.lt b → b.lt a = false) ∧
    (∀ a b c : Value, a.lt b → b.lt c → a.lt c) ∧
    (∀ a b : Value, a.gt b = b.lt a) ∧
    (∀ (a b : Value) (o : Ordering), a.compare b = .ok o → b.compare a = .ok o.swap) ∧
    (∀ (a b : Value) (x y : ℤ), a.integer? = some x → b.integer? = some y → a.ComparesAs b x y) ∧
    ∀ s t : String, (Value.string s).ComparesAs (.string t) s.toList t.toList := by
  refine ⟨lt_irrefl, fun _ _ => lt_asymm, fun _ _ _ => lt_trans, gt_eq_lt, ?_,
    fun _ _ _ _ => comparesAs_of_integer?, comparesAs_string⟩
  intro a b o h
  rw [compare_eq_ok] at *
  rw [order?_swap a b, h]
  rfl

/-- Two words that share their float are compared exactly, and with a float above both of them as
floats. A negative integer stays below all unsigned ones. -/
theorem Value.strict_order_rounded :
    let a : Value := .integer 9007199254740992
    let b : Value := .unsigned 9007199254740993
    let c : Value := .float 9007199254740994.0
    a.toFloat = b.toFloat ∧ a.lt b ∧ b.lt c ∧ a.lt c ∧ b.lt a = false ∧
      c.compare a = .ok .gt ∧ a.compare c = .ok .lt ∧
      (Value.integer (-1)).integer? = some (-1) ∧
      (Value.unsigned 18446744073709551615).integer? = some 18446744073709551615 ∧
      (Value.integer (-1)).compare (.unsigned 18446744073709551615) = .ok .lt := by
  intro a b c
  obtain ⟨-, hasymm, htrans, -, hswap, hexact, -⟩ := strict_order
  have hab : a.lt b := by decide
  have hbc : b.lt c := by decide
  have hca : c.compare a = .ok .gt := by decide
  have hleast : (Value.integer (-1)).integer? = some (-1) := by decide
  have hlargest : (Value.unsigned 18446744073709551615).integer? = some 18446744073709551615 := by
    decide
  refine ⟨by decide, hab, hbc, htrans a b c hab hbc, hasymm a b hab, hca, hswap c a .gt hca, hleast,
    hlargest, ?_⟩
  exact (hexact _ _ _ _ hleast hlargest).compare

end ReversePolish
