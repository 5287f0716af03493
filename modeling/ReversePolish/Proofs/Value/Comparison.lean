import ReversePolish.Proofs.Binary64.Tolerance
import ReversePolish.Proofs.Value.Ordering
/-!
# The three-way comparison and the predicates

The three-way comparison and the predicates for order tell the same: what one of them says is less
is so for all of them, and where there is no order no predicate holds. Equality is a definition of
its own, with a tolerance for floats, so that two values may be equal although one is less. The
converse is what matters for `≤` and `≥`, and it has one exception. An infinity is in order with
itself, and yet it is not equal to itself, as equality is for finite floats alone; so it is neither
at most nor at least itself (`Value.predicates_agree`).
-/

namespace ReversePolish

namespace Number

variable {n m : Number}

theorem equal_of_float (h : n.integer? = none ∨ m.integer? = none) :
    n.equal m = Binary64.nearlyEqual n.toFloat m.toFloat := by
  unfold equal
  rcases h with h | h <;> rw [h]
  cases n.integer? <;> rfl

/-- Numbers that the order makes equal are equal if they are finite. -/
theorem equal_of_order?_eq (h : n.order? m = some .eq) : n.equal m = n.toFloat.isFinite := by
  rcases float_or_words n m with hfloat | ⟨x, y, hx, hy⟩
  · rw [order?_of_float hfloat] at h
    rw [equal_of_float hfloat]
    cases hfinite : n.toFloat.isFinite with
    | false => simp [Binary64.nearlyEqual, hfinite]
    | true => exact Binary64.nearlyEqual_of_order?_eq hfinite h
  · rw [order?_of_integer? hx hy, Option.some.injEq, compare_eq_iff_eq] at h
    rw [isFinite_of_integer? hx]
    simp [equal, hx, hy, h]

/-- Numbers that have no order are not equal. -/
theorem equal_of_order?_none (h : n.order? m = none) : n.equal m = false := by
  rcases float_or_words n m with hfloat | ⟨x, y, hx, hy⟩
  · rw [order?_of_float hfloat] at h
    rw [equal_of_float hfloat]
    unfold Binary64.nearlyEqual
    cases hn : n.toFloat.isFinite with
    | false => rfl
    | true =>
      cases hm : m.toFloat.isFinite with
      | false => simp
      | true =>
        obtain ⟨p, hp⟩ := Binary64.isFinite_iff.1 hn
        obtain ⟨q, hq⟩ := Binary64.isFinite_iff.1 hm
        rw [Binary64.order?_of_places (Binary64.place?_eq_ofRational.2 hp)
          (Binary64.place?_eq_ofRational.2 hq)] at h
        cases h
  · rw [order?_of_integer? hx hy] at h
    cases h

/-- What is not finite is a float. -/
theorem exists_float (h : n.toFloat.isFinite = false) : ∃ x, n = .float x := by
  cases n with
  | integer i =>
    rw [isFinite_of_integer? rfl] at h
    cases h
  | unsigned u =>
    rw [isFinite_of_integer? rfl] at h
    cases h
  | float x => exact ⟨x, rfl⟩

/-- A number that is not finite is in order with itself alone. -/
theorem eq_of_order?_eq (h : n.order? m = some .eq) (hinfinite : n.toFloat.isFinite = false) :
    m = n := by
  obtain ⟨x, rfl⟩ := exists_float hinfinite
  rw [order?_of_float (.inl rfl)] at h
  obtain ⟨-, -, heq | ⟨rfl, -⟩ | ⟨rfl, -⟩⟩ :=
    Float.beq_iff_ne_nan_and_eq.1 (Binary64.beq_of_order?_eq h)
  · obtain ⟨y, rfl⟩ := exists_float (n := m) (heq ▸ hinfinite)
    exact congrArg float heq.symm
  · exact absurd hinfinite (by decide)
  · exact absurd hinfinite (by decide)

end Number

namespace Value

/-- Whether a value is an infinity of either sign. -/
def isInfinite : Value → Bool
  | .float x => x.isInf
  | _ => false

/-- What the predicates say of two values, as against the outcome of their three-way comparison. -/
def Agrees (a b : Value) : Except ValueError Ordering → Prop
  | .ok .lt => a.lt b = true ∧ a.le b = true ∧ a.gt b = false
  | .ok .gt => a.gt b = true ∧ a.ge b = true ∧ a.lt b = false
  | .ok .eq => a.lt b = false ∧ a.gt b = false ∧
    if a.isInfinite then b = a ∧ a.equal b = false ∧ a.le b = false ∧ a.ge b = false
    else a.equal b = true ∧ a.le b = true ∧ a.ge b = true
  | .error _ => a.lt b = false ∧ a.gt b = false ∧ a.le b = false ∧ a.ge b = false

variable {a b : Value}

theorem sameKind_of_order? {o : Ordering} (h : a.order? b = some o) : a.sameKind b = true := by
  rcases order?_eq_some.1 h with ⟨s, t, rfl, rfl, -⟩ | ⟨n, m, hn, hm, -⟩
  · rfl
  · simp [sameKind, isNumeric, hn, hm]

/-- Values that have no order and are equal all the same are not of one kind. -/
theorem sameKind_and_equal_of_order?_none (h : a.order? b = none) :
    (a.sameKind b && a.equal b) = false := by
  cases a with
  | null | error => simp [sameKind, isNumeric, isString, number?]
  | string s =>
    cases b with
    | string t => cases h
    | null | error | boolean | number => simp [sameKind, isNumeric, isString, number?]
  | boolean | number =>
    cases b with
    | null | error | string => simp [sameKind, isNumeric, isString, number?]
    | boolean | number =>
      rw [order?_of_number? rfl rfl] at h
      rw [equal_of_number? rfl rfl, Number.equal_of_order?_none h, Bool.and_false]

/-- The infinities are those values in the order that are not finite. -/
theorem isInfinite_eq {n m : Number} {o : Ordering} (hn : a.number? = some n)
    (h : n.order? m = some o) : a.isInfinite = !n.toFloat.isFinite := by
  obtain ⟨p, -, hp, -⟩ := Number.places_of_order? h
  cases a with
  | null | error | string => cases hn
  | boolean b =>
    cases hn
    rw [Number.isFinite_of_integer? rfl]
    rfl
  | number n =>
    cases hn
    cases n with
    | integer | unsigned =>
      rw [Number.isFinite_of_integer? rfl]
      rfl
    | float x => exact Binary64.isInf_of_place? hp

theorem eq_of_number? {x : Float} (h : a.number? = some (.float x)) : a = .float x := by
  cases a with
  | null | error | string | boolean => cases h
  | number n =>
    cases h
    rfl

/-- **Values that the order makes equal** are equal, at most and at least each other, but for an
infinity. -/
theorem predicates_of_order?_eq (h : a.order? b = some .eq) :
    if a.isInfinite then b = a ∧ a.equal b = false ∧ a.le b = false ∧ a.ge b = false
    else a.equal b = true ∧ a.le b = true ∧ a.ge b = true := by
  have hlt : a.lt b = false := by simp [lt, h]
  have hgt : a.gt b = false := by simp [gt, h]
  have hkind := sameKind_of_order? h
  simp only [le, ge, hlt, hgt, hkind, Bool.false_or, Bool.true_and]
  rcases order?_eq_some.1 h with ⟨s, t, rfl, rfl, hst⟩ | ⟨n, m, hn, hm, hnm⟩
  · obtain rfl : s = t := compare_eq_iff_eq.1 hst
    simp [isInfinite, equal]
  · have hequal : a.equal b = n.toFloat.isFinite := by
      rw [equal_of_number? hn hm, Number.equal_of_order?_eq hnm]
    rw [isInfinite_eq hn hnm, hequal]
    cases hfinite : n.toFloat.isFinite with
    | true => simp
    | false =>
      obtain rfl := Number.eq_of_order?_eq hnm hfinite
      obtain ⟨x, rfl⟩ := Number.exists_float hfinite
      simp [eq_of_number? hn, eq_of_number? hm]

end Value

/-- **The three-way comparison and the predicates agree**, on values of all kinds. Where it says
that one value is less or greater, so do they. Where it says that the two are equal, neither is
less, and they are equal and at most and at least each other, unless they are one and the same
infinity, which is equal to nothing. Where it fails, none of the predicates for order holds. -/
theorem Value.predicates_agree (a b : Value) : a.Agrees b (a.compare b) := by
  cases h : a.compare b with
  | error code =>
    have hnone : a.order? b = none := by
      rw [Option.eq_none_iff_forall_ne_some]
      intro o ho
      rw [compare_eq_ok.2 ho] at h
      cases h
    have hlt : a.lt b = false := by simp [lt, hnone]
    have hgt : a.gt b = false := by simp [gt, hnone]
    have hequal := sameKind_and_equal_of_order?_none hnone
    exact ⟨hlt, hgt, by rw [le, hlt, hequal]; rfl, by rw [ge, hgt, hequal]; rfl⟩
  | ok o =>
    rw [compare_eq_ok] at h
    have hlt : a.lt b = (o == .lt) := by rw [lt, h]; rfl
    have hgt : a.gt b = (o == .gt) := by rw [gt, h]; rfl
    cases o with
    | lt => exact ⟨hlt, by rw [le, hlt]; rfl, hgt⟩
    | gt => exact ⟨hgt, by rw [ge, hgt]; rfl, hlt⟩
    | eq => exact ⟨hlt, hgt, predicates_of_order?_eq h⟩

/-- An infinity compares as equal to itself, and no predicate says so. -/
theorem Value.compare_infinity :
    let infinity : Value := .float (.ofBits 0x7FF0000000000000)
    infinity.compare infinity = .ok .eq ∧
      ¬(infinity.equal infinity = true ∧ infinity.le infinity = true ∧
        infinity.ge infinity = true) := by
  decide

end ReversePolish
