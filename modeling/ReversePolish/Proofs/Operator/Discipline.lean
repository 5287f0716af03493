import ReversePolish.Proofs.Operator.Outcome
/-!
# Operators keep to their operands

An operator either fails or does its work, and both are kept within bounds. Where it fails, the
state is the one it was applied to: all that can be refused is refused before the first slot is
taken (`apply_atomic`). The exception is `end`, which takes its operand to see whether it should
stop. Where an operator does its work, the slots that it takes give way to its remainder, and
nothing else in the state moves: not the slots below, not the parked segments, not the registry, and
no cell unless the operator is `=` (`apply_frame`).
-/

namespace ReversePolish

variable {lib : ElementaryFunctions} {op : Operator} {s s' : Machine} {failure : Failure}

/-! ## Failing -/

namespace Outcome

/-- An operator is short of slots only if the segment is. -/
theorem lt_arity (h : Outcome op s (.error (.operator .argumentCountMismatch) s')) :
    s.stack.size < op.arity := by
  cases h with
  | short hlt => exact hlt
  | refused _ _ hcount => exact absurd rfl hcount

theorem unchanged_of_error (h : Outcome op s (.error failure s')) :
    if op.name = "end" ∧ failure = .operator .cannotContinue then
      ∃ top rest, s.stack.active = top :: rest ∧ s' = s.withActive rest
    else s' = s := by
  cases h with
  | short => simp
  | refused _ _ _ hstop =>
    rw [if_neg]
    rintro ⟨hend, hcode⟩
    exact hstop hend hcode
  | stopped top rest hend hactive =>
    rw [if_pos ⟨hend, rfl⟩]
    exact ⟨top, rest, hactive, rfl⟩

end Outcome

/-- **Operators are atomic.** An operator of the standard table fails for want of slots if the
active segment holds fewer than its arity says, and only then: its body never runs out of slots once
it is entered. Whatever it fails with, the state is left as it was, except that `end` has taken its
operand when it stops. -/
theorem apply_atomic (hop : op ∈ (OperatorTable.standard lib).operators) (s : Machine) :
    ((∃ s', op.apply.run s = .error (.operator .argumentCountMismatch) s') ↔
        s.stack.size < op.arity) ∧
      (op.arity ≤ s.stack.size →
        ∀ s', op.body.run s ≠ .error (.operator .argumentCountMismatch) s') ∧
      ∀ failure s', op.apply.run s = .error failure s' →
        if op.name = "end" ∧ failure = .operator .cannotContinue then
          ∃ top rest, s.stack.active = top :: rest ∧ s' = s.withActive rest
        else s' = s := by
  have houtcome : ∀ {result}, op.apply.run s = result → Outcome op s result :=
    fun h => h ▸ Outcome.of_mem hop s
  refine ⟨⟨?_, ?_⟩, ?_, ?_⟩
  · rintro ⟨s', h⟩
    exact (houtcome h).lt_arity
  · intro hlt
    exact ⟨s, by rw [Operator.run_apply, if_pos hlt]⟩
  · intro harity s' h
    have happly : op.apply.run s = .error (.operator .argumentCountMismatch) s' := by
      rw [Operator.run_apply, if_neg (Nat.not_lt.2 harity), h]
    exact Nat.not_lt.2 harity (houtcome happly).lt_arity
  · intro failure s' h
    exact (houtcome h).unchanged_of_error

/-- `end` stops for a null that it sees through a reference, and the reference is gone. -/
theorem apply_atomic_end :
    let op : Operator := ⟨"end", 1, Builtin.stopUnless⟩
    let s : Machine := ⟨⟨[.variable ⟨"x", 0⟩, .value (.integer 7)], [[.variable ⟨"x", 0⟩]]⟩,
      ⟨[("x", ⟨"x", 0⟩)]⟩, ⟨#[.null]⟩, []⟩
    op ∈ (OperatorTable.standard .standard).operators ∧
      op.apply.run s
        = .error (.operator .cannotContinue) (s.withActive [.value (.integer 7)]) ∧
      ∃ top rest, s.stack.active = top :: rest ∧
        s.withActive [.value (.integer 7)] = s.withActive rest := by
  intro op s
  have hop : op ∈ (OperatorTable.standard .standard).operators :=
    List.mem_of_find?_eq_some (rfl : (OperatorTable.standard .standard).find? "end" = some op)
  have hrun : op.apply.run s
      = .error (.operator .cannotContinue) (s.withActive [.value (.integer 7)]) := rfl
  have hleft := (apply_atomic hop s).2.2 _ _ hrun
  rw [if_pos ⟨rfl, rfl⟩] at hleft
  exact ⟨hop, hrun, hleft⟩

/-! ## Succeeding -/

namespace Outcome

/-- What an operator has taken off the stack, and what it has left there. -/
theorem exists_left (h : Outcome op s (.ok () s')) :
    ∃ group left rest, s.stack.active = group ++ rest ∧ op.operandCount? s = some group.length ∧
      (Remainder.ofName op.name).IsLeft group left ∧
      s'.stack = { s.stack with active := left ++ rest } := by
  cases h with
  | computed group rest v hactive hcount _ hleaves =>
    refine ⟨group, [.value v], rest, hactive, hcount, ?_, rfl⟩
    rw [hleaves]
    exact ⟨v, rfl⟩
  | moved group kept rest hactive hcount _ hleaves =>
    exact ⟨group, kept, rest, hactive, hcount, hleaves, rfl⟩
  | assigned target source rest hname hactive harity =>
    have hcount : op.operandCount? s = some 2 := by
      rw [Operator.operandCount?_of_ne (by rw [hname]; decide), harity]
    refine ⟨[.variable target, source], [], rest, hactive, hcount, ?_, rfl⟩
    rw [hname]
    rfl

/-- No operator makes a reference or touches the registry. -/
theorem keepsVariables {result : EStateM.Result Failure Machine Unit} (h : Outcome op s result) :
    s.KeepsVariables (Effect.stateOf result) := by
  cases h with
  | short | refused => exact .refl s
  | stopped top rest hname hactive => exact .below [top] hactive
  | computed group rest v hactive =>
    exact (Machine.KeepsVariables.below group hactive).trans (.push _ v)
  | moved group kept rest hactive hlength hkept =>
    exact .withActive fun v hv => Machine.mem_active_of_kept hactive hkept hv
  | assigned target source rest hname hactive =>
    exact (Machine.KeepsVariables.below [_, _] hactive).trans (.write ..)

/-- Only `=` writes to a cell. -/
theorem cells_eq (h : Outcome op s (.ok () s')) (hname : op.name ≠ "=") : s'.cells = s.cells := by
  cases h with
  | computed | moved => rfl
  | assigned _ _ _ hassign => exact absurd hassign hname

end Outcome

/-- **Operators keep to their operands.** An operator of the standard table that does its work takes
`k` slots, as many as its arity says or, if it is `index`, two more than its top operand says. It
leaves its remainder in their place: one value of its own, or slots that it has taken, each as it
was. The slots below them and the parked segments stay as they are. So all references on the stack
were there before, and refer to the same cells; no variable enters or leaves the registry; and no
cell changes, unless the operator is `=`. -/
theorem apply_frame (hop : op ∈ (OperatorTable.standard lib).operators)
    (h : op.apply.run s = .ok () s') :
    let remainder := Remainder.ofName op.name
    ∃ k, op.operandCount? s = some k ∧ k ≤ s.stack.size ∧
      (∃ left, s'.stack.active = left ++ s.stack.active.drop k ∧
        remainder.IsLeft (s.stack.active.take k) left) ∧
      s'.stack.active.drop remainder.size = s.stack.active.drop k ∧
      s'.stack.size = s.stack.size - k + remainder.size ∧
      s'.stack.parked = s.stack.parked ∧
      (∀ v, Slot.variable v ∈ s'.stack.slots → Slot.variable v ∈ s.stack.slots) ∧
      s'.registry = s.registry ∧
      (op.name ≠ "=" → s'.cells = s.cells) := by
  intro remainder
  have houtcome : Outcome op s (.ok () s') := h ▸ Outcome.of_mem hop s
  obtain ⟨group, left, rest, hactive, hcount, hleft, hstack⟩ := houtcome.exists_left
  have hgroup : s.stack.active.take group.length = group := by
    rw [hactive]
    exact List.take_left
  have hrest : s.stack.active.drop group.length = rest := by
    rw [hactive]
    exact List.drop_left
  have hsize : s.stack.size = group.length + rest.length := by
    rw [Stack.size, hactive, List.length_append]
  have hsize' : s'.stack.size = rest.length + remainder.size := by
    rw [hstack, Stack.size, List.length_append, hleft.length_eq, Nat.add_comm]
  refine ⟨group.length, hcount, ?_, ⟨left, ?_, ?_⟩, ?_, ?_, ?_, houtcome.keepsVariables.slots,
    houtcome.keepsVariables.registry, houtcome.cells_eq⟩
  · rw [hsize]
    exact Nat.le_add_right ..
  · rw [hrest, hstack]
  · rwa [hgroup]
  · rw [hrest, hstack]
    exact List.drop_left' hleft.length_eq
  · rw [hsize', hsize, Nat.add_sub_cancel_left]
  · rw [hstack]

/-- `index` looks from the end, and leaves the reference to `y` itself. -/
theorem apply_frame_index :
    let op : Operator := ⟨"index", 2, Builtin.index⟩
    let s : Machine := ⟨⟨[.value (.unsigned 2), .variable ⟨"y", 1⟩, .variable ⟨"x", 0⟩,
      .value (.integer (-1)), .value .null], [[.variable ⟨"x", 0⟩]]⟩,
      ⟨[("x", ⟨"x", 0⟩), ("y", ⟨"y", 1⟩)]⟩, ⟨#[.null, .boolean true]⟩, []⟩
    let s' := s.withActive [.variable ⟨"y", 1⟩, .value .null]
    op ∈ (OperatorTable.standard .standard).operators ∧ op.apply.run s = .ok () s' ∧
      op.operandCount? s = some 4 ∧ s'.stack.size = 5 - 4 + 1 ∧
      ∃ left, s'.stack.active = left ++ [.value .null] ∧
        Remainder.choice.IsLeft (s.stack.active.take 4) left := by
  intro op s s'
  have hop : op ∈ (OperatorTable.standard .standard).operators :=
    List.mem_of_find?_eq_some (rfl : (OperatorTable.standard .standard).find? "index" = some op)
  have hrun : op.apply.run s = .ok () s' := rfl
  obtain ⟨k, hcount, -, hleft, -, hsize, -⟩ := apply_frame hop hrun
  cases hcount
  exact ⟨hop, hrun, rfl, hsize, hleft⟩

end ReversePolish
