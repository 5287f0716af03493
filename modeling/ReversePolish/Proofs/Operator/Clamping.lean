import ReversePolish.Proofs.Operator.Outcome
import ReversePolish.Proofs.Value.Ordering
/-!
# Clamping

`cmp3` tells on which side of a range a value lies, and `constrain` replaces a value outside of the
range by the end that it has passed. The one looks at three-way comparisons, of which a failed one
comes first, and the other at the predicates, which never fail. Where `cmp3` gives a side,
`constrain` takes the slot of that side. If the ends of the range are in order, what it takes lies
in the range, and to clamp it again changes nothing (`constrain_follows_cmp3`).
-/

namespace ReversePolish

/-- What is ordered at all equals itself in the order. -/
theorem Number.order?_self {n m : Number} {o : Ordering} (h : n.order? m = some o) :
    n.order? n = some .eq := by
  obtain ⟨p, -, hp, -⟩ := places_of_order? h
  cases hn : n.integer? with
  | some x => rw [order?_of_integer? hn hn, compare_eq_iff_eq.2 rfl]
  | none => rw [order?_of_float (.inl hn), Binary64.order?_of_places hp hp, cmp_self_eq_eq]

theorem Value.order?_self {a b : Value} {o : Ordering} (h : a.order? b = some o) :
    a.order? a = some .eq := by
  rcases order?_eq_some.1 h with ⟨s, t, rfl, -, -⟩ | ⟨n, m, hn, -, hnm⟩
  · exact congrArg some (compare_eq_iff_eq.2 rfl)
  · rw [order?_of_number? hn hn, Number.order?_self hnm]

/-! ## The sides of a range -/

/-- What belongs to a side of a range, given by the number that `cmp3` has for it: the end that was
passed, or what lies inside. -/
inductive OnSide {α : Type} (v lower upper : α) : Int64 → α → Prop where
  | below : OnSide v lower upper (-1) lower
  | inside : OnSide v lower upper 0 v
  | above : OnSide v lower upper 1 upper

theorem OnSide.map {α β : Type} (f : α → β) {v lower upper chosen : α} {i : Int64}
    (h : OnSide v lower upper i chosen) : OnSide (f v) (f lower) (f upper) i (f chosen) := by
  cases h with
  | below => exact .below
  | inside => exact .inside
  | above => exact .above

namespace Value

variable {v lower upper chosen : Value} {i : Int64} {o o' : Ordering}

/-- The position of a value that compares with both ends. -/
theorem position_of_order? (hlower : v.order? lower = some o) (hupper : v.order? upper = some o') :
    v.position lower upper = if o = .lt then .integer (-1) else if o' = .gt then .integer 1
      else .integer 0 := by
  simp only [position, compare_eq_ok.2 hlower, compare_eq_ok.2 hupper]
  cases o <;> cases o' <;> rfl

/-- A value has a side only if it compares with both ends. -/
theorem exists_order?_of_position (h : v.position lower upper = .integer i) :
    ∃ o o', v.order? lower = some o ∧ v.order? upper = some o' := by
  cases hlower : v.compare lower with
  | error code =>
    simp only [position, hlower, reduceCtorEq] at h
  | ok o =>
    cases hupper : v.compare upper with
    | error code =>
      simp only [position, hlower, hupper, reduceCtorEq] at h
    | ok o' => exact ⟨o, o', compare_eq_ok.1 hlower, compare_eq_ok.1 hupper⟩

/-- **The predicates choose the side** that the three-way comparisons give. -/
theorem onSide_of_position {α : Type} {v' lower' upper' : α}
    (h : v.position lower upper = .integer i) :
    OnSide v' lower' upper' i
      (if v.lt lower then lower' else if v.gt upper then upper' else v') := by
  obtain ⟨o, o', hlower, hupper⟩ := exists_order?_of_position h
  rw [position_of_order? hlower hupper] at h
  simp only [lt_iff, gt_iff, hlower, hupper, Option.some.injEq]
  split at h
  · next hbelow =>
    cases h
    rw [if_pos hbelow]
    exact .below
  · next hbelow =>
    rw [if_neg hbelow]
    split at h
    · next habove =>
      cases h
      rw [if_pos habove]
      exact .above
    · next habove =>
      cases h
      rw [if_neg habove]
      exact .inside

/-- **What was chosen lies inside**, if the ends are in order. -/
theorem position_of_onSide (h : v.position lower upper = .integer i)
    (hside : OnSide v lower upper i chosen) (hends : lower.order? upper = some o) (hne : o ≠ .gt) :
    chosen.position lower upper = .integer 0 := by
  have hself := order?_self hends
  have hswap : upper.order? lower = some o.swap := by rw [order?_swap lower upper, hends]; rfl
  cases hside with
  | inside => exact h
  | below =>
    rw [position_of_order? hself hends, if_neg (by simp), if_neg hne]
  | above =>
    have hne' : o.swap ≠ .lt := by cases o <;> simp at hne ⊢
    rw [position_of_order? hswap (order?_self hswap), if_neg hne', if_neg (by simp)]

end Value

/-! ## The operators -/

section

variable {s : Machine} {v lower upper : Slot} {rest : List Slot} {i : Int64}

theorem Operator.run_cmp3 (h : s.stack.active = upper :: lower :: v :: rest) :
    (⟨"cmp3", 3, Builtin.cmp3⟩ : Operator).apply.run s = .ok () (s.withActive
      (.value ((s.see v).position (s.see lower) (s.see upper)) :: rest)) := by
  rw [run_apply, if_neg (by simp [Stack.size, h]), Builtin.run_cmp3 h]

/-- Where the position is that of a side, `constrain` chooses the slot of that side. -/
theorem Operator.run_constrain (h : s.stack.active = upper :: lower :: v :: rest)
    (hposition : (s.see v).position (s.see lower) (s.see upper) = .integer i) :
    ∃ chosen, OnSide v lower upper i chosen ∧
      (⟨"constrain", 3, Builtin.constrain⟩ : Operator).apply.run s
        = .ok () (s.withActive (chosen :: rest)) := by
  refine ⟨_, Value.onSide_of_position hposition, ?_⟩
  rw [run_apply, if_neg (by simp [Stack.size, h]), Builtin.run_constrain h]

/-- **Clamping follows the comparison with a range.** Where `cmp3` pushes an integer, `constrain`
leaves the slot of that side as it is, above the rest. If the ends compare as less or as equal,
`cmp3` finds that slot inside the range, and clamping it again leaves it. -/
theorem constrain_follows_cmp3 {lib : ElementaryFunctions} {cmp3 constrain : Operator}
    (hcmp3 : (OperatorTable.standard lib).find? "cmp3" = some cmp3)
    (hconstrain : (OperatorTable.standard lib).find? "constrain" = some constrain)
    (hactive : s.stack.active = upper :: lower :: v :: rest)
    (hpush : cmp3.apply.run s = .ok () (s.withActive (.value (.integer i) :: rest))) :
    ∃ chosen, OnSide v lower upper i chosen ∧
      constrain.apply.run s = .ok () (s.withActive (chosen :: rest)) ∧
      ((s.see lower).compare (s.see upper) = .ok .lt ∨
          (s.see lower).compare (s.see upper) = .ok .eq →
        let again := s.withActive (upper :: lower :: chosen :: rest)
        cmp3.apply.run again = .ok () (s.withActive (.value (.integer 0) :: rest)) ∧
          constrain.apply.run again = .ok () (s.withActive (chosen :: rest))) := by
  obtain rfl := Option.some.inj hcmp3
  obtain rfl := Option.some.inj hconstrain
  have hposition : (s.see v).position (s.see lower) (s.see upper) = .integer i := by
    rw [Operator.run_cmp3 hactive] at hpush
    have hslots := congrArg (fun r => (Effect.stateOf r).stack.active) hpush
    exact Slot.value.inj (List.cons.inj hslots).1
  obtain ⟨chosen, hside, hrun⟩ := Operator.run_constrain hactive hposition
  refine ⟨chosen, hside, hrun, fun hends => ?_⟩
  obtain ⟨o, horder, hne⟩ : ∃ o, (s.see lower).order? (s.see upper) = some o ∧ o ≠ .gt := by
    rcases hends with h | h
    · exact ⟨.lt, Value.compare_eq_ok.1 h, by simp⟩
    · exact ⟨.eq, Value.compare_eq_ok.1 h, by simp⟩
  intro again
  have hinside := Value.position_of_onSide hposition (hside.map s.see) horder hne
  obtain ⟨same, hsame, hagain⟩ := Operator.run_constrain (s := again) rfl hinside
  cases hsame
  refine ⟨?_, hagain⟩
  have hcompared := Operator.run_cmp3 (s := again) rfl
  rw [Machine.see_withActive, Machine.see_withActive, Machine.see_withActive, hinside] at hcompared
  exact hcompared

/-- The range from a reference up to infinity. An integer below it gives way to the reference, which
is not replaced by its value. -/
theorem constrain_follows_cmp3_reference :
    let cmp3 : Operator := ⟨"cmp3", 3, Builtin.cmp3⟩
    let constrain : Operator := ⟨"constrain", 3, Builtin.constrain⟩
    let upper : Slot := .value (.float (.ofBits 0x7FF0000000000000))
    let lower : Slot := .variable ⟨"x", 0⟩
    let s : Machine :=
      ⟨⟨[upper, lower, .value (.unsigned 9007199254740993), .value .null], []⟩, ⟨[("x", ⟨"x", 0⟩)]⟩,
        ⟨#[.float 9007199254740994.0]⟩, []⟩
    (OperatorTable.standard .standard).find? "cmp3" = some cmp3 ∧
      (OperatorTable.standard .standard).find? "constrain" = some constrain ∧
      cmp3.apply.run s = .ok () (s.withActive [.value (.integer (-1)), .value .null]) ∧
      constrain.apply.run s = .ok () (s.withActive [lower, .value .null]) ∧
      (s.see lower).compare (s.see upper) = .ok .lt ∧
      cmp3.apply.run (s.withActive [upper, lower, lower, .value .null])
        = .ok () (s.withActive [.value (.integer 0), .value .null]) := by
  intro cmp3 constrain upper lower s
  have hcmp3 : (OperatorTable.standard .standard).find? "cmp3" = some cmp3 := rfl
  have hconstrain : (OperatorTable.standard .standard).find? "constrain" = some constrain := rfl
  have hposition : (Value.unsigned 9007199254740993).position (s.see lower) (s.see upper)
      = .integer (-1) := by decide +kernel
  have hpush : cmp3.apply.run s = .ok () (s.withActive [.value (.integer (-1)), .value .null]) := by
    rw [← hposition]
    exact Operator.run_cmp3 (s := s) rfl
  have hends : (s.see lower).compare (s.see upper) = .ok .lt := by decide +kernel
  obtain ⟨chosen, hside, hrun, hagain⟩ := constrain_follows_cmp3 hcmp3 hconstrain rfl hpush
  cases hside
  exact ⟨hcmp3, hconstrain, hpush, hrun, hends, (hagain (.inl hends)).1⟩

end

end ReversePolish
