import ReversePolish.Machine.Effect
/-!
# The active segment

Operators reach the active segment only, so the states that they lead to differ from the one that
they start in by the slots of that segment: `Machine.withActive` is the state with other slots
there. On a segment whose top is known, every elementary effect is an equation. Such changes leave
the registry alone, and where they bring in no references `Machine.KeepsVariables` holds.
-/

namespace ReversePolish

/-! ## The slots of all segments -/

namespace Stack

variable {s : Stack} {slot : Slot}

theorem mem_slots :
    slot ∈ s.slots ↔ slot ∈ s.active ∨ ∃ segment ∈ s.parked, slot ∈ segment := by
  simp [slots, or_comm]

theorem mem_slots_push {new : Slot} : slot ∈ (s.push new).slots ↔ slot = new ∨ slot ∈ s.slots := by
  simp only [mem_slots, push, List.mem_cons, or_assoc]

/-- Starting a segment moves no slot. -/
@[simp] theorem slots_openSegment (s : Stack) : s.openSegment.slots = s.slots := by
  simp [slots, openSegment]

/-- Closing one adds the count on top of all slots. -/
theorem mem_slots_close {parent : List Slot} {parked : List (List Slot)} {count : Slot}
    (h : s.parked = parent :: parked) :
    slot ∈ (⟨count :: s.active ++ parent, parked⟩ : Stack).slots
      ↔ slot = count ∨ slot ∈ s.slots := by
  simp only [mem_slots, h, List.cons_append, List.mem_cons, List.mem_append, exists_eq_or_imp]
  constructor
  · rintro ((h | h | h) | h)
    · exact .inl h
    · exact .inr (.inl h)
    · exact .inr (.inr (.inl h))
    · exact .inr (.inr (.inr h))
  · rintro (h | h | h | h)
    · exact .inl (.inl h)
    · exact .inl (.inr (.inl h))
    · exact .inl (.inr (.inr h))
    · exact .inr h

end Stack

/-! ## Replacing the active segment -/

namespace Machine

/-- The state with other slots in the active segment. -/
def withActive (s : Machine) (slots : List Slot) : Machine :=
  { s with stack := { s.stack with active := slots } }

@[simp] theorem active_withActive (s : Machine) (slots : List Slot) :
    (s.withActive slots).stack.active = slots := rfl

@[simp] theorem parked_withActive (s : Machine) (slots : List Slot) :
    (s.withActive slots).stack.parked = s.stack.parked := rfl

@[simp] theorem registry_withActive (s : Machine) (slots : List Slot) :
    (s.withActive slots).registry = s.registry := rfl

@[simp] theorem cells_withActive (s : Machine) (slots : List Slot) :
    (s.withActive slots).cells = s.cells := rfl

@[simp] theorem handles_withActive (s : Machine) (slots : List Slot) :
    (s.withActive slots).handles = s.handles := rfl

@[simp] theorem see_withActive (s : Machine) (slots : List Slot) (slot : Slot) :
    (s.withActive slots).see slot = s.see slot := rfl

@[simp] theorem withActive_withActive (s : Machine) (slots other : List Slot) :
    (s.withActive slots).withActive other = s.withActive other := rfl

/-- What is kept of the top slots, and all below them, was there before. -/
theorem mem_active_of_kept {s : Machine} {group kept rest : List Slot} {slot : Slot}
    (hactive : s.stack.active = group ++ rest) (hkept : ∀ slot ∈ kept, slot ∈ group)
    (h : slot ∈ kept ++ rest) : slot ∈ s.stack.active := by
  rw [hactive]
  rcases List.mem_append.1 h with h | h
  · exact List.mem_append_left _ (hkept slot h)
  · exact List.mem_append_right _ h

@[simp] theorem withActive_active (s : Machine) : s.withActive s.stack.active = s := rfl

end Machine

/-! ## What is kept of the variables -/

namespace Machine

/-- The registry is the same, no cell was handed out, and no slot refers to a variable that none
referred to before. -/
structure KeepsVariables (s s' : Machine) : Prop where
  registry : s'.registry = s.registry
  next : s'.cells.next = s.cells.next
  slots : ∀ v, Slot.variable v ∈ s'.stack.slots → Slot.variable v ∈ s.stack.slots

namespace KeepsVariables

variable {s : Machine}

theorem refl (s : Machine) : s.KeepsVariables s := ⟨rfl, rfl, fun _ h => h⟩

theorem withActive {slots : List Slot}
    (h : ∀ v, Slot.variable v ∈ slots → Slot.variable v ∈ s.stack.active) :
    s.KeepsVariables (s.withActive slots) := by
  refine ⟨rfl, rfl, ?_⟩
  intro v hv
  rcases Stack.mem_slots.1 hv with hv | hparked
  · exact Stack.mem_slots.2 (.inl (h v hv))
  · exact Stack.mem_slots.2 (.inr hparked)

/-- Removing the top slots. -/
theorem below (group : List Slot) {rest : List Slot} (hactive : s.stack.active = group ++ rest) :
    s.KeepsVariables (s.withActive rest) := by
  apply withActive
  intro v hv
  rw [hactive]
  exact List.mem_append_right _ hv

theorem push (s : Machine) (v : Value) : s.KeepsVariables (s.push v) := by
  refine ⟨rfl, rfl, fun w hw => ?_⟩
  rcases Stack.mem_slots_push.1 hw with hw | hw
  · cases hw
  · exact hw

theorem openSegment (s : Machine) :
    s.KeepsVariables { s with stack := s.stack.openSegment } :=
  ⟨rfl, rfl, fun v hv => by rwa [Stack.slots_openSegment] at hv⟩

/-- The count that closing a segment leaves is no reference. -/
theorem closeSegment {parent : List Slot} {parked : List (List Slot)}
    (h : s.stack.parked = parent :: parked) (count : Value) :
    s.KeepsVariables { s with
      stack := ⟨.value count :: s.stack.active ++ parent, parked⟩ } := by
  refine ⟨rfl, rfl, fun v hv => ?_⟩
  rcases (Stack.mem_slots_close h).1 hv with hv | hv
  · cases hv
  · exact hv

theorem trans {s' s'' : Machine} (h : s.KeepsVariables s') (h' : s'.KeepsVariables s'') :
    s.KeepsVariables s'' :=
  ⟨h'.registry.trans h.registry, h'.next.trans h.next, fun v hv => h.slots v (h'.slots v hv)⟩

theorem write (s : Machine) (target : Variable) (value : Value) :
    s.KeepsVariables (s.write target value) :=
  ⟨rfl, Cells.next_write .., fun _ h => h⟩

end KeepsVariables

end Machine

/-- The state that an effect has come to, whether it has failed or not. -/
def Effect.stateOf {α : Type} : EStateM.Result Failure Machine α → Machine
  | .ok _ s => s
  | .error _ s => s

/-! ## Elementary effects on a known stack -/

theorem Machine.peek_of_getElem? {s : Machine} {n : Nat} {slot : Slot}
    (h : s.stack.active[n]? = some slot) : s.peek (n + 1) = .ok (s.see slot) := by
  simp only [peek, Stack.slotAt, h]
  rfl

namespace Effect

variable {s : Machine} {top : Slot} {rest : List Slot}

theorem run_popSlot (h : s.stack.active = top :: rest) :
    popSlot.run s = .ok top (s.withActive rest) := by
  simp only [popSlot, run_ofStep, Machine.popSlot, Stack.pop, h]
  rfl

theorem run_pop (h : s.stack.active = top :: rest) :
    pop.run s = .ok (s.see top) (s.withActive rest) := by
  simp only [pop, run_ofStep, Machine.pop, Machine.popSlot, Stack.pop, h]
  rfl

theorem run_slotAt {n : Nat} {slot : Slot} (h : s.stack.active[n]? = some slot) :
    (slotAt (n + 1)).run s = .ok slot s := by
  show (ofExcept .operator (s.stack.slotAt (n + 1))).run s = _
  simp only [Stack.slotAt, h]
  rfl

theorem run_peek {n : Nat} {slot : Slot} (h : s.stack.active[n]? = some slot) :
    (peek (n + 1)).run s = .ok (s.see slot) s := by
  show (ofExcept .operator (s.peek (n + 1))).run s = _
  rw [Machine.peek_of_getElem? h]
  rfl

theorem run_popMany {n : Nat} (h : n ≤ s.stack.size) :
    (popMany n).run s = .ok (s.stack.active.take n) (s.withActive (s.stack.active.drop n)) := by
  simp only [popMany, run_ofStep, Machine.popMany, Stack.popMany, Nat.not_lt.2 h, if_false]
  rfl

theorem run_onStack_ok {f : Stack → Except OperatorError Stack} {stack : Stack}
    (h : f s.stack = .ok stack) : (onStack f).run s = .ok () { s with stack } := by
  simp only [onStack, run_ofStep, h]
  rfl

theorem run_onStack_error {f : Stack → Except OperatorError Stack} {code : OperatorError}
    (h : f s.stack = .error code) : (onStack f).run s = .error (.operator code) s := by
  simp only [onStack, run_ofStep, h]
  rfl

theorem run_closeSegment {parent : List Slot} {parked : List (List Slot)}
    (h : s.stack.parked = parent :: parked) :
    closeSegment.run s = .ok () { s with
      stack := ⟨.value (.unsigned (UInt64.ofNat s.stack.size)) :: s.stack.active ++ parent,
        parked⟩ } := by
  simp only [closeSegment, run_ofStep, Stack.closeSegment, h]
  rfl

end Effect

/-! ## Shuffles on a large enough stack -/

namespace Stack

/-- A segment that holds more than `n` slots has a top and `n` slots below it. -/
theorem exists_of_lt_size {slots : List Slot} {n : Nat} (h : n + 1 ≤ slots.length) :
    ∃ top rest, slots = top :: rest ∧ n ≤ rest.length := by
  cases slots with
  | nil => cases h
  | cons top rest => exact ⟨top, rest, rfl, Nat.le_of_succ_le_succ h⟩

theorem exists_of_two_le {slots : List Slot} (h : 2 ≤ slots.length) :
    ∃ top second rest, slots = top :: second :: rest := by
  obtain ⟨top, below, rfl, hbelow⟩ := exists_of_lt_size h
  obtain ⟨second, rest, rfl, -⟩ := exists_of_lt_size hbelow
  exact ⟨top, second, rest, rfl⟩

theorem exists_of_three_le {slots : List Slot} (h : 3 ≤ slots.length) :
    ∃ top second third rest, slots = top :: second :: third :: rest := by
  obtain ⟨top, below, rfl, hbelow⟩ := exists_of_lt_size h
  obtain ⟨second, third, rest, rfl⟩ := exists_of_two_le hbelow
  exact ⟨top, second, third, rest, rfl⟩

variable {s : Stack} {n : Nat}

theorem rearrange_eq (h : n ≤ s.size) (f : List Slot → List Slot) :
    s.rearrange n f = .ok { s with active := f (s.active.take n) ++ s.active.drop n } := by
  simp only [rearrange, popMany, Nat.not_lt.2 h, if_false]
  rfl

theorem rearrange_of_size_lt (h : s.size < n) (f : List Slot → List Slot) :
    s.rearrange n f = .error .argumentCountMismatch := by
  simp only [rearrange, popMany, h, if_true]
  rfl

theorem pick_eq {slot : Slot} (h : s.active[n]? = some slot) :
    s.pick (n + 1) = .ok (s.push slot) := by
  simp only [pick, slotAt, h]
  rfl

end Stack

end ReversePolish
