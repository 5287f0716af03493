import ReversePolish.Proofs.Operator.Outcome
import ReversePolish.Proofs.Value.Conversions
/-!
# Selecting a slot of a group

`index` is the one operator whose operands say how deep it reaches. The top slot is a count `n`;
below it lies a group of so many slots, and below the group a position, which addresses a member of
the group from its lowest slot on or, if it is negative, from its end. Both arguments may be of any
numeric kind, as long as they denote integers that are signed words.

So there are two cases. Either the top slots are such a request (`Machine.Addresses`), and then the
slot that it addresses takes the place of all of them, or the arguments are refused and nothing
changes.
-/

namespace ReversePolish

/-! ## Whole arguments -/

namespace Number

variable {n : Number} {i : Int64}

/-- A number is a signed word if its integer is that word. -/
theorem checkedInt_eq_ok : n.checkedInt = .ok i ↔ n.truncate? = some i.toInt := by
  have hchecked : n.checkedInt = .ok i ↔ _ := WordRange.signed.checked_eq_ok
  rw [hchecked]
  constructor
  · rintro ⟨z, hz, -, -, hi⟩
    rw [hz]
    exact congrArg some hi.symm
  · intro h
    exact ⟨i.toInt, h, i.le_toInt, i.toInt_lt, rfl⟩

end Number

namespace Value

/-- The integer that a numeric value denotes: that of a boolean is zero or one, and a float denotes
one if it has no fraction. -/
def Denotes (v : Value) (z : ℤ) : Prop :=
  match v with
  | .float x => Binary64.rational? x = some (z : ℚ)
  | v => v.integer? = some z

/-- The value denotes the integer `z`, which is a signed word. -/
structure IsWord (v : Value) (z : ℤ) : Prop where
  denotes : v.Denotes z
  lower : -2 ^ 63 ≤ z
  upper : z < 2 ^ 63

variable {v : Value} {z : ℤ}

theorem denotes_iff :
    v.Denotes z ↔ ∃ n, v.number? = some n ∧ n.isWhole ∧ n.truncate? = some z := by
  cases v with
  | null | error | string => simp [Denotes, integer?, number?]
  | boolean b => cases b <;> simp [Denotes, integer?, number?, Number.isWhole, Number.truncate?]
  | number n =>
    cases n with
    | integer | unsigned => simp [Denotes, integer?, number?, Number.isWhole, Number.truncate?]
    | float x => simp [Denotes, number?, Number.isWhole, Number.truncate?,
        Binary64.rational?_eq_intCast]

end Value

/-- The place of the member of a group of `n` that `k` addresses, counted from the lowest one on, or
from the end if `k` is negative. -/
def memberPlace (n : ℕ) (k : ℤ) : ℕ := (if k < 0 then n + k else k).toNat

theorem memberPlace_lt {n : ℕ} {k : ℤ} (hlower : -n ≤ k) (hupper : k < n) : memberPlace n k < n := by
  unfold memberPlace
  split <;> omega

namespace Builtin

variable {v : Value} {i : Int64} {n m : ℕ} {k : ℤ}

theorem wholeArgument_eq_ok : wholeArgument v = .ok i ↔ v.Denotes i.toInt := by
  simp only [Value.denotes_iff, ← Number.checkedInt_eq_ok]
  unfold wholeArgument
  cases v.number? with
  | none => simp
  | some n =>
    cases hwhole : n.isWhole with
    | false => simp [hwhole]
    | true => cases hi : n.checkedInt <;> simp [hwhole, hi]

theorem exists_wholeArgument : v.IsWord k ↔ ∃ i, wholeArgument v = .ok i ∧ i.toInt = k := by
  constructor
  · intro h
    have hk : (Int64.ofInt k).toInt = k := Int64.toInt_ofInt_of_le h.lower h.upper
    exact ⟨Int64.ofInt k, wholeArgument_eq_ok.2 (hk.symm ▸ h.denotes), hk⟩
  · rintro ⟨i, hi, rfl⟩
    exact ⟨wholeArgument_eq_ok.1 hi, i.le_toInt, i.toInt_lt⟩

/-- A count is a natural number. -/
theorem groupSize_eq_ok : groupSize v = .ok n ↔ v.IsWord n := by
  rw [exists_wholeArgument]
  unfold groupSize
  cases wholeArgument v with
  | error code => simp
  | ok i =>
    dsimp only
    split
    · next hneg =>
      simp only [reduceCtorEq, Except.ok.injEq, exists_eq_left', false_iff]
      omega
    · next hpos =>
      simp only [Except.ok.injEq, exists_eq_left']
      omega

/-- A position counts from the one end of the group or from the other. -/
theorem memberOf_eq_ok :
    memberOf n v = .ok m ↔ ∃ k, v.IsWord k ∧ -n ≤ k ∧ k < n ∧ m = memberPlace n k := by
  simp only [exists_wholeArgument]
  unfold memberOf memberPlace
  cases wholeArgument v with
  | error code => simp
  | ok i =>
    -- whichever end it counts from, the place is looked for in the group
    simp only [Except.ok.injEq, exists_eq_left']
    split <;> split <;> simp <;> omega

end Builtin

/-! ## Requests -/

/-- The member of a group that `k` addresses. -/
def memberAt? (group : List Slot) (k : ℤ) : Option Slot := group[memberPlace group.length k]?

/-- The `n` slots below the top one, the lowest first. -/
def Machine.group (s : Machine) (n : ℕ) : List Slot := ((s.stack.active.drop 1).take n).reverse

/-- The top slots are a request for the member `k` of the `n` slots below the top one. -/
structure Machine.Addresses (s : Machine) (n : ℕ) (k : ℤ) : Prop where
  nonempty : 1 ≤ n
  size : n + 2 ≤ s.stack.size
  count : ∃ v, s.peek 1 = .ok v ∧ v.IsWord n
  position : ∃ v, s.peek (n + 2) = .ok v ∧ v.IsWord k
  lower : -n ≤ k
  upper : k < n

namespace Machine

variable {s : Machine} {n m : ℕ}

theorem length_group (h : n + 1 ≤ s.stack.size) : (s.group n).length = n := by
  rw [group, List.length_reverse, List.length_take, List.length_drop]
  unfold Stack.size at h
  omega

/-- The members of a group lie below the top slot, the last one nearest to it. -/
theorem getElem?_group (h : n + 1 ≤ s.stack.size) (hm : m < n) :
    (s.group n)[m]? = s.stack.active[n - m]? := by
  have hlength : ((s.stack.active.drop 1).take n).length = n := by
    simpa [group] using length_group h
  rw [group, List.getElem?_reverse (by omega), hlength, List.getElem?_take_of_lt (by omega),
    List.getElem?_drop]
  congr 1
  omega

/-- What is computed for a count `n` does not overflow and stays within the segment: the count with
the two slots beyond it is an unsigned word, a position moved by it is a signed integer of 128 bits,
and the slots that are looked at exist. -/
structure InBounds (s : Machine) (n : ℕ) : Prop where
  count : n + 2 < UInt64.size
  position (i : Int64) : -2 ^ 127 ≤ i.toInt + n ∧ i.toInt + n < 2 ^ 127
  place (v : Value) (m : ℕ) : Builtin.memberOf n v = .ok m → m < n
  lowest : n + 2 ≤ s.stack.size → ∃ v, s.peek (n + 2) = .ok v
  member : n + 2 ≤ s.stack.size → ∀ m < n, ∃ slot,
    (s.group n)[m]? = some slot ∧ s.stack.slotAt (n + 1 - m) = .ok slot

/-- **Nothing overflows**, whatever the count. -/
theorem inBounds_of_groupSize {v : Value} (h : Builtin.groupSize v = .ok n) : s.InBounds n where
  count := by
    have hupper := (Builtin.groupSize_eq_ok.1 h).upper
    have hsize : UInt64.size = 2 ^ 64 := rfl
    omega
  position i := by
    have hupper := (Builtin.groupSize_eq_ok.1 h).upper
    have hlower := i.le_toInt
    have hupper' := i.toInt_lt
    omega
  place _ _ := Builtin.memberOf_lt
  lowest hsize := ⟨_, peek_of_getElem? (List.getElem?_eq_getElem hsize)⟩
  member hsize m hm := by
    have hbelow : n + 1 ≤ s.stack.size := Nat.le_of_succ_le hsize
    have hslot := List.getElem?_eq_getElem (Nat.lt_of_le_of_lt (Nat.sub_le n m) hbelow)
    refine ⟨_, (getElem?_group hbelow hm).trans hslot, ?_⟩
    rw [show n + 1 - m = n - m + 1 by omega]
    simp only [Stack.slotAt, hslot]

end Machine

/-! ## The operator -/

section

variable {s : Machine} {n : ℕ} {k : ℤ}

theorem exists_of_bind_ok {ε α β : Type} {r : Except ε α} {f : α → Except ε β} {b : β}
    (h : r.bind f = .ok b) : ∃ a, r = .ok a ∧ f a = .ok b := by
  cases r with
  | error code => cases h
  | ok a => exact ⟨a, rfl, h⟩

/-- Slots that address a member are arguments that `index` takes. -/
theorem Machine.Addresses.requests (h : s.Addresses n k) : s.Requests n (memberPlace n k) where
  count := by
    obtain ⟨v, hv, hn⟩ := h.count
    rw [hv]
    exact Builtin.groupSize_eq_ok.2 hn
  size := h.size
  position := by
    obtain ⟨v, hv, hk⟩ := h.position
    rw [hv]
    exact Builtin.memberOf_eq_ok.2 ⟨k, hk, h.lower, h.upper, rfl⟩

/-- It takes no others. -/
theorem Machine.Requests.exists_addresses {m : ℕ} (h : s.Requests n m) : ∃ k, s.Addresses n k := by
  obtain ⟨count, hcount, hn⟩ := exists_of_bind_ok h.count
  obtain ⟨position, hposition, hm⟩ := exists_of_bind_ok h.position
  obtain ⟨k, hk, hlower, hupper, -⟩ := Builtin.memberOf_eq_ok.1 hm
  exact ⟨k, by omega, h.size, ⟨count, hcount, Builtin.groupSize_eq_ok.1 hn⟩,
    ⟨position, hposition, hk⟩, hlower, hupper⟩

/-- **A request is granted**: the member takes the place of the top slots. -/
theorem Builtin.run_index_of_addresses (h : s.Addresses n k) :
    ∃ slot, memberAt? (s.group n) k = some slot ∧
      index.run s = .ok () (s.withActive (slot :: s.stack.active.drop (n + 2))) := by
  obtain ⟨slot, hslot, hrun⟩ := run_index_of_requests h.requests
  have hbelow : n + 1 ≤ s.stack.size := Nat.le_of_succ_le h.size
  refine ⟨slot, ?_, hrun⟩
  rw [memberAt?, Machine.length_group hbelow,
    Machine.getElem?_group hbelow (memberPlace_lt h.lower h.upper), hslot]

/-- **Anything else is refused**, and nothing changes. -/
theorem Builtin.run_index_of_not_addresses (hsize : 2 ≤ s.stack.size)
    (h : ¬∃ n k, s.Addresses n k) : index.run s = .error (.operator .invalidArgument) s := by
  refine run_index_of_not_requests hsize ?_
  rintro ⟨n, m, hrequest⟩
  exact h ⟨n, hrequest.exists_addresses⟩

end

/-! ## Groups in brackets -/

/-- Pushes a position, then a group in a segment of its own, and applies the operator. -/
def Operator.onGroup (op : Operator) (position : Value) (group : List Slot) : Effect Unit := do
  Effect.push position
  Effect.openSegment
  group.forM Effect.pushSlot
  Effect.closeSegment
  op.apply

/-- The slots that this leaves below the operator. -/
def request (position : Value) (group : List Slot) : List Slot :=
  .value (.unsigned (UInt64.ofNat group.length)) :: group.reverse ++ [.value position]

@[simp] theorem length_request (position : Value) (group : List Slot) :
    (request position group).length = group.length + 2 := by
  simp [request]

section

variable {s : Machine} {position : Value} {group : List Slot} {k : ℤ}

/-- Slots that are pushed one after the other lie on top of the segment, the last one topmost. -/
theorem Effect.run_pushSlots (group : List Slot) (s : Machine) :
    (group.forM pushSlot).run s = .ok () (s.withActive (group.reverse ++ s.stack.active)) := by
  induction group generalizing s with
  | nil => rfl
  | cons slot group ih =>
    simp only [List.forM_eq_forM, List.forM_cons, EStateM.run_bind, run_pushSlot] at ih ⊢
    rw [ih, List.reverse_cons, List.append_assoc]
    rfl

theorem Operator.run_onGroup (op : Operator) (position : Value) (group : List Slot) (s : Machine) :
    (op.onGroup position group).run s
      = op.apply.run (s.withActive (request position group ++ s.stack.active)) := by
  simp only [onGroup, EStateM.run_bind, Effect.run_push, Effect.run_openSegment,
    Effect.run_pushSlots]
  rw [Effect.run_closeSegment rfl]
  simp [Machine.withActive, Machine.push, Machine.pushSlot, Stack.openSegment, Stack.push,
    Stack.size, request]

theorem Value.isWord_unsigned {n : ℕ} (h : n < 2 ^ 63) :
    (Value.unsigned (UInt64.ofNat n)).IsWord n := by
  have hn : (UInt64.ofNat n).toNat = n :=
    UInt64.toNat_ofNat_of_lt' (h.trans (by decide))
  exact ⟨by simp [Denotes, integer?, hn], by omega, by omega⟩

/-- The request is for a member of the group in brackets. -/
theorem Machine.addresses_request (hk : position.IsWord k) (hlower : -group.length ≤ k)
    (hupper : k < group.length) (hgroup : group.length < 2 ^ 63) (slots : List Slot) :
    (s.withActive (request position group ++ slots)).Addresses group.length k where
  nonempty := by omega
  size := by simp [Stack.size]
  count := ⟨_, peek_of_getElem? rfl, Value.isWord_unsigned hgroup⟩
  position := by
    have hslot : (request position group ++ slots)[group.length + 1]? = some (.value position) := by
      simp [request]
    exact ⟨_, peek_of_getElem? hslot, hk⟩
  lower := hlower
  upper := hupper

theorem Machine.group_request (slots : List Slot) :
    (s.withActive (request position group ++ slots)).group group.length = group := by
  simp [Machine.group, request]

end

/-! ## The theorem -/

section

variable {lib : ElementaryFunctions} {op : Operator} {s : Machine}

/-- **Selection.** On at least two slots, `index` succeeds if and only if the top one denotes a
count `n` and the one below the `n` slots under it a position `k` between `-n` and `n`. The slot
that `k` addresses, counting from the lowest of the `n` or from the end, then takes the place of all
`n + 2` slots as it is, and nothing else changes. If there is no such count and position, the
argument is invalid and nothing changes at all. Nothing that is computed on the way overflows. So a
position, a group in brackets and `index` leave the member of the group that the position
addresses. -/
theorem index_selects (hop : (OperatorTable.standard lib).find? "index" = some op)
    (hsize : 2 ≤ s.stack.size) :
    ((∃ s', op.apply.run s = .ok () s') ↔ ∃ n k, s.Addresses n k) ∧
    (∀ n k, s.Addresses n k → ∃ slot, memberAt? (s.group n) k = some slot ∧
      op.apply.run s = .ok () (s.withActive (slot :: s.stack.active.drop (n + 2)))) ∧
    ((¬∃ n k, s.Addresses n k) → op.apply.run s = .error (.operator .invalidArgument) s) ∧
    (∀ count n, Builtin.groupSize count = .ok n → s.InBounds n) ∧
    ∀ (position : Value) (group : List Slot) (k : ℤ), position.IsWord k → -group.length ≤ k →
      k < group.length → group.length < 2 ^ 63 → ∃ slot, memberAt? group k = some slot ∧
        (op.onGroup position group).run s = .ok () (s.pushSlot slot) := by
  obtain rfl : op = ⟨"index", 2, Builtin.index⟩ := (Option.some.inj hop).symm
  have hgranted : ∀ {s : Machine} {n k}, s.Addresses n k →
      ∃ slot, memberAt? (s.group n) k = some slot ∧
        (⟨"index", 2, Builtin.index⟩ : Operator).apply.run s
          = .ok () (s.withActive (slot :: s.stack.active.drop (n + 2))) := by
    intro s n k h
    rw [Operator.run_apply, if_neg (Nat.not_lt.2 (Nat.le_of_add_left_le h.size))]
    exact Builtin.run_index_of_addresses h
  have hrefused : (¬∃ n k, s.Addresses n k) →
      (⟨"index", 2, Builtin.index⟩ : Operator).apply.run s
        = .error (.operator .invalidArgument) s := by
    intro h
    rw [Operator.run_apply, if_neg (Nat.not_lt.2 hsize)]
    exact Builtin.run_index_of_not_addresses hsize h
  refine ⟨⟨?_, ?_⟩, fun _ _ => hgranted, hrefused, fun _ _ => Machine.inBounds_of_groupSize, ?_⟩
  · rintro ⟨s', hrun⟩
    by_contra h
    rw [hrefused h] at hrun
    cases hrun
  · rintro ⟨n, k, h⟩
    obtain ⟨slot, -, hrun⟩ := hgranted h
    exact ⟨_, hrun⟩
  · intro position group k hk hlower hupper hgroup
    obtain ⟨slot, hmember, hrun⟩ :=
      hgranted (Machine.addresses_request (s := s) hk hlower hupper hgroup s.stack.active)
    rw [Machine.group_request] at hmember
    rw [Machine.active_withActive, List.drop_left' (length_request position group)] at hrun
    exact ⟨slot, hmember, (Operator.run_onGroup _ position group s).trans hrun⟩

/-- The last of two references is selected by a float and a negative integer, and stays a reference.
Two is no position in a group of two. A boolean selects from a group in brackets. -/
theorem index_selects_reference :
    let op : Operator := ⟨"index", 2, Builtin.index⟩
    let stack (position : Int64) : Stack :=
      ⟨[.value (.float 2.0), .variable ⟨"y", 1⟩, .variable ⟨"x", 0⟩, .value (.integer position),
        .value .null], [[.variable ⟨"x", 0⟩]]⟩
    let state (position : Int64) : Machine :=
      ⟨stack position, ⟨[("x", ⟨"x", 0⟩), ("y", ⟨"y", 1⟩)]⟩, ⟨#[.null, .boolean true]⟩, []⟩
    let s := state (-1)
    (OperatorTable.standard .standard).find? "index" = some op ∧
      2 ≤ s.stack.size ∧ s.Addresses 2 (-1) ∧
      op.apply.run s = .ok () (s.withActive [.variable ⟨"y", 1⟩, .value .null]) ∧
      (¬∃ n k, (state 2).Addresses n k) ∧
      op.apply.run (state 2) = .error (.operator .invalidArgument) (state 2) ∧
      Builtin.groupSize (.integer Int64.maxValue) = .ok 9223372036854775807 ∧
      s.InBounds 9223372036854775807 ∧
      (Value.boolean true).IsWord 1 ∧
      (op.onGroup (.boolean true) [.value .null, .variable ⟨"x", 0⟩]).run s
        = .ok () (s.pushSlot (.variable ⟨"x", 0⟩)) := by
  intro op stack state s
  have hop : (OperatorTable.standard .standard).find? "index" = some op := rfl
  have hsize : ∀ position, 2 ≤ (state position).stack.size := fun _ => by
    simp [state, stack, Stack.size]
  have haddresses : s.Addresses 2 (-1) := by
    refine ⟨by decide, by decide, ⟨.float 2.0, rfl, ?_⟩, ⟨.integer (-1), rfl, ?_⟩, by decide,
      by decide⟩
    · exact Builtin.groupSize_eq_ok.1 rfl
    · exact Builtin.exists_wholeArgument.2 ⟨-1, rfl, rfl⟩
  have hrefused : ¬∃ n k, (state 2).Addresses n k := by
    rintro h
    obtain ⟨s', hrun⟩ := (index_selects hop (hsize 2)).1.2 h
    have hfails : op.apply.run (state 2) = .error (.operator .invalidArgument) (state 2) := rfl
    rw [hfails] at hrun
    cases hrun
  have hcount : Builtin.groupSize (.integer Int64.maxValue) = .ok 9223372036854775807 := rfl
  have hone : (Value.boolean true).IsWord 1 := Builtin.exists_wholeArgument.2 ⟨1, rfl, rfl⟩
  obtain ⟨-, hselects, -, hbounds, hgroup⟩ := index_selects hop (hsize (-1))
  obtain ⟨slot, hmember, hrun⟩ := hselects 2 (-1) haddresses
  obtain rfl : Slot.variable ⟨"y", 1⟩ = slot := Option.some.inj hmember
  obtain ⟨slot, hmember', hrun'⟩ := hgroup (.boolean true) [.value .null, .variable ⟨"x", 0⟩] 1 hone
    (by decide) (by decide) (by decide)
  obtain rfl : Slot.variable ⟨"x", 0⟩ = slot := Option.some.inj hmember'
  exact ⟨hop, hsize (-1), haddresses, hrun, hrefused,
    (index_selects hop (hsize 2)).2.2.1 hrefused, hcount, hbounds _ _ hcount, hone, hrun'⟩

end

end ReversePolish
