import ReversePolish.Operator.Builtin
import ReversePolish.Operator.Elementary
/-!
# The code `notAnError` is never new

`notAnError` answers the question for the code of a value that is none. A host may put it into an
error value, and then it travels like any other code; but no computation with values makes it up.
A function is `Honest` if it gives that error value only for an operand that is that error value.
Every function behind an operator is.
-/

namespace ReversePolish

/-! ## Computations that may fail -/

theorem bind_ne_error {ε α β : Type} {code : ε} {r : Except ε α} {f : α → Except ε β}
    (hr : r ≠ .error code) (hf : ∀ a, f a ≠ .error code) : (r >>= f) ≠ .error code := by
  cases r with
  | error other => exact fun h => hr (by simpa [bind, Except.bind] using h)
  | ok a => exact hf a

theorem map_ne_error {ε α β : Type} {code : ε} {r : Except ε α} {f : α → β}
    (hr : r ≠ .error code) : r.map f ≠ .error code := by
  cases r with
  | error other => exact fun h => hr (by simpa [Except.map] using h)
  | ok a => exact fun h => by cases h

namespace Number

theorem checkedInt_ne (n : Number) : n.checkedInt ≠ .error .notAnError := by
  unfold checkedInt
  split
  · split <;> simp
  · simp

theorem checkedUnsigned_ne (n : Number) : n.checkedUnsigned ≠ .error .notAnError := by
  unfold checkedUnsigned
  split
  · split <;> simp
  · simp

theorem arithmetic_ne (op : Operation) (a b : Number) :
    Number.arithmetic op a b ≠ .error .notAnError := by
  unfold Number.arithmetic
  cases a with
  | integer i =>
    refine bind_ne_error b.checkedInt_ne fun j =>
      bind_ne_error ?_ (by simp [pure, Except.pure])
    unfold Operation.onIntegers
    split <;> simp
  | unsigned u =>
    refine bind_ne_error b.checkedUnsigned_ne fun w =>
      bind_ne_error ?_ (by simp [pure, Except.pure])
    unfold Operation.onUnsigned
    split <;> simp
  | float x =>
    refine bind_ne_error ?_ (by simp [pure, Except.pure])
    unfold Operation.onFloats
    split
    · simp
    · split <;> simp

end Number

namespace Value

theorem checkedNumber_ne (v : Value) : v.checkedNumber ≠ .error .notAnError := by
  unfold checkedNumber
  split <;> simp

theorem checkedInt_ne (v : Value) : v.checkedInt ≠ .error .notAnError :=
  bind_ne_error v.checkedNumber_ne Number.checkedInt_ne

/-- The operand of a float operator is refused for a reason that is new, or for its own. -/
theorem requireFloat_eq {v : Value} (h : v.requireFloat = .error .notAnError) :
    v = .error .notAnError := by
  unfold requireFloat at h
  split at h
  · cases h
    rfl
  · exact absurd h (map_ne_error (checkedNumber_ne _))

/-- A failure becomes the error value of its code. -/
theorem ofExcept_ne {α : Type} {wrap : α → Value} {r : Except ValueError α}
    (hw : ∀ a, wrap a ≠ .error .notAnError) (hr : r ≠ .error .notAnError) :
    ofExcept wrap r ≠ .error .notAnError := by
  cases r with
  | ok a => exact hw a
  | error code => exact fun h => hr (by cases h; rfl)

/-! ## Functions behind operators -/

/-- A function of one value that does not make up `notAnError`. -/
def Honest (f : Value → Value) : Prop :=
  ∀ a, f a = .error .notAnError → a = .error .notAnError

/-- A function of two values that does not make up `notAnError`. -/
def Honest₂ (f : Value → Value → Value) : Prop :=
  ∀ a b, f a b = .error .notAnError → a = .error .notAnError ∨ b = .error .notAnError

theorem honest_boolean (f : Value → Bool) : Honest fun a => .boolean (f a) :=
  fun _ h => by cases h

theorem honest₂_boolean (f : Value → Value → Bool) : Honest₂ fun a b => .boolean (f a b) :=
  fun _ _ h => by cases h

theorem honest₂_arithmetic (op : Operation) : Honest₂ (arithmetic op) := by
  intro a b h
  unfold arithmetic at h
  split at h
  · cases h; exact .inl rfl
  · cases h; exact .inr rfl
  · cases h
  · cases h
  · cases h
  · cases h
  · unfold joinStrings at h
    split at h <;> cases h
  · unfold mixedStrings at h
    split at h <;> cases h
  · unfold mixedStrings at h
    split at h <;> cases h
  · refine absurd h (ofExcept_ne (by simp) ?_)
    exact bind_ne_error (checkedNumber_ne _) fun x =>
      bind_ne_error (checkedNumber_ne _) fun y => Number.arithmetic_ne op x y

theorem honest_abs : Honest abs := by
  intro a h
  unfold abs at h
  split at h
  · cases h
  · cases h
  · exact h
  · exact absurd h (ofExcept_ne (by simp) (map_ne_error (checkedNumber_ne _)))

theorem honest_mapFloat (f : Float → Float) : Honest (mapFloat f) := by
  intro a h
  unfold mapFloat at h
  split at h
  · cases h
  · cases h
  · exact h
  · exact absurd h (ofExcept_ne (by simp) (map_ne_error (checkedNumber_ne _)))

theorem honest_toInteger : Honest Builtin.toInteger := by
  intro a h
  unfold Builtin.toInteger at h
  split at h
  · exact h
  · exact absurd h (ofExcept_ne (by simp) (checkedInt_ne _))

theorem compare_eq {a b : Value} (h : a.compare b = .error .notAnError) :
    a = .error .notAnError ∨ b = .error .notAnError := by
  unfold compare at h
  split at h
  · cases h; exact .inl rfl
  · cases h; exact .inr rfl
  · cases h
  · cases h
  · split at h
    · cases h
    · split at h <;> cases h

theorem ofOrdering_ne (o : Ordering) : ofOrdering o ≠ .error .notAnError := by
  cases o <;> simp [ofOrdering]

theorem honest₂_comparison : Honest₂ comparison := by
  intro a b h
  unfold comparison at h
  cases hc : a.compare b with
  | ok o => rw [hc] at h; exact absurd h (ofOrdering_ne o)
  | error code =>
    rw [hc] at h
    cases h
    exact compare_eq hc

theorem position_eq {v lower upper : Value} (h : v.position lower upper = .error .notAnError) :
    v = .error .notAnError ∨ lower = .error .notAnError ∨ upper = .error .notAnError := by
  unfold position at h
  split at h
  · next hc =>
    cases h
    rcases compare_eq hc with h | h
    · exact .inl h
    · exact .inr (.inl h)
  · next hc _ =>
    cases h
    rcases compare_eq hc with h | h
    · exact .inl h
    · exact .inr (.inr h)
  all_goals cases h

end Value

namespace ElementaryFunctions

theorem finite_ne (x : Float) : finite x ≠ .error .notAnError := by
  unfold finite
  split <;> simp

theorem checkedRemainder_ne (lib : ElementaryFunctions) (x y : Float) :
    lib.checkedRemainder x y ≠ .error .notAnError := by
  unfold checkedRemainder
  split
  · simp
  · exact finite_ne _

theorem honest_onFinite (f : Float → Float) : Value.Honest (onFinite f) := by
  intro a h
  unfold onFinite at h
  split at h
  · split at h
    · exact absurd h (finite_ne _)
    · cases h
  · next hr =>
    cases h
    exact Value.requireFloat_eq hr

theorem honest₂_onPair {f : Float → Float → Value} (hf : ∀ x y, f x y ≠ .error .notAnError) :
    Value.Honest₂ (onPair f) := by
  intro a b h
  unfold onPair at h
  split at h
  · exact absurd h (hf _ _)
  · next hr =>
    cases h
    exact .inl (Value.requireFloat_eq hr)
  · next hr _ =>
    cases h
    exact .inr (Value.requireFloat_eq hr)

end ElementaryFunctions

end ReversePolish
