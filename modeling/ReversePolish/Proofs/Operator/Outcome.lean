import ReversePolish.Calculator
import ReversePolish.Proofs.Machine.Active
import ReversePolish.Proofs.Operator.Operands
import ReversePolish.Proofs.Value.NewErrors
/-!
# What a standard operator can do

The standard table holds the built-in operators and the elementary functions behind them. Whatever
operator of it is applied to whatever state, only a few things can come of it, and `Outcome` lists
them: the operands are refused and nothing has changed, or the top slots give way to a new value or
to slots that were among them, or `=` writes to a cell, or `end` takes its operand and stops.

`outcome_of_find?` says this of every operator once. All that is true of a run because it is true of
every operator is derived from it, and no operator is looked at again.
-/

namespace ReversePolish

/-- The built-in operators, and the elementary functions on the floats of `lib`. -/
def OperatorTable.standard (lib : ElementaryFunctions) : OperatorTable :=
  ⟨Builtin.operators ++ lib.operators⟩

/-- What is left of the operand of a unary operator. -/
theorem Operator.run_unary {name : String} {f : Value → Value} {s : Machine} {a : Slot}
    {rest : List Slot} (hactive : s.stack.active = a :: rest) :
    (Operator.unary name f).body.run s = .ok () (s.withActive (.value (f (s.see a)) :: rest)) := by
  simp only [unary, EStateM.run_bind, Effect.run_pop hactive, Effect.run_push]
  rfl

/-- What is left of the two operands of a binary operator. -/
theorem Operator.run_binary {name : String} {f : Value → Value → Value} {s : Machine} {a b : Slot}
    {rest : List Slot} (hactive : s.stack.active = b :: a :: rest) :
    (Operator.binary name f).body.run s
      = .ok () (s.withActive (.value (f (s.see a) (s.see b)) :: rest)) := by
  simp only [binary, EStateM.run_bind, Effect.run_pop hactive,
    Effect.run_pop (s := s.withActive (a :: rest)) rfl, Effect.run_push]
  rfl

/-! ## Outcomes -/

/-- Some slot of a group shows the error value `notAnError`. -/
def Machine.ShowsNotAnError (s : Machine) (group : List Slot) : Prop :=
  ∃ slot ∈ group, s.see slot = .error .notAnError

/-- What can come of applying an operator to a state. The group is what the operator takes off the
stack. -/
inductive Outcome (op : Operator) (s : Machine) : EStateM.Result Failure Machine Unit → Prop where
  /-- There are too few slots. -/
  | short (h : s.stack.size < op.arity) :
      Outcome op s (.error (.operator .argumentCountMismatch) s)
  /-- The operands are not what they should be; nothing has changed. -/
  | refused (failure : Failure) (harity : op.arity ≤ s.stack.size)
      (hcount : failure ≠ .operator .argumentCountMismatch)
      (hstop : op.name = "end" → failure ≠ .operator .cannotContinue)
      (htext : ∀ code, failure ≠ .processing code)
      (hcode : failure = .value .notAnError → s.ShowsNotAnError s.stack.active) :
      Outcome op s (.error failure s)
  /-- `end` has taken its operand and stops. -/
  | stopped (top : Slot) (rest : List Slot) (hname : op.name = "end")
      (hactive : s.stack.active = top :: rest) :
      Outcome op s (.error (.operator .cannotContinue) (s.withActive rest))
  /-- A value takes the place of the group. -/
  | computed (group rest : List Slot) (v : Value) (hactive : s.stack.active = group ++ rest)
      (hcount : op.operandCount? s = some group.length)
      (hcode : v = .error .notAnError → s.ShowsNotAnError group)
      (hleaves : Remainder.ofName op.name = .value) :
      Outcome op s (.ok () (s.withActive (.value v :: rest)))
  /-- Slots of the group take the place of the group. -/
  | moved (group kept rest : List Slot) (hactive : s.stack.active = group ++ rest)
      (hcount : op.operandCount? s = some group.length)
      (hkept : ∀ slot ∈ kept, slot ∈ group)
      (hleaves : (Remainder.ofName op.name).IsLeft group kept) :
      Outcome op s (.ok () (s.withActive (kept ++ rest)))
  /-- `=` has written what the second slot shows to the cell that the top slot refers to. -/
  | assigned (target : Variable) (source : Slot) (rest : List Slot) (hname : op.name = "=")
      (hactive : s.stack.active = .variable target :: source :: rest) (harity : op.arity = 2) :
      Outcome op s (.ok () ((s.withActive rest).write target (s.see source)))

namespace Outcome

variable {op : Operator} {s : Machine}

/-- With too few slots the operator is not run at all. -/
theorem of_body (h : op.arity ≤ s.stack.size → Outcome op s (op.body.run s)) :
    Outcome op s (op.apply.run s) := by
  rw [Operator.run_apply]
  split
  · next hlt => exact .short hlt
  · next hge => exact h (Nat.not_lt.1 hge)

/-- A new value takes the place of as many slots as the arity says. -/
theorem of_value (group : List Slot) {rest : List Slot} {v : Value}
    (hactive : s.stack.active = group ++ rest) (hleaves : Remainder.ofName op.name = .value)
    (hlength : group.length = op.arity) (hcode : v = .error .notAnError → s.ShowsNotAnError group) :
    Outcome op s (.ok () (s.withActive (.value v :: rest))) := by
  have hcount : op.operandCount? s = some op.arity :=
    Operator.operandCount?_of_remainder (by rw [hleaves]; simp) s
  exact .computed group rest v hactive (by rw [hcount, hlength]) hcode hleaves

/-- So do slots, if the operator is not `index`. -/
theorem of_slots (group kept : List Slot) {rest : List Slot}
    (hactive : s.stack.active = group ++ rest)
    (hindex : op.name ≠ "index") (hvalue : Remainder.ofName op.name ≠ .value)
    (hlength : group.length = op.arity)
    (hleaves : (Remainder.ofName op.name).IsLeft group kept) :
    Outcome op s (.ok () (s.withActive (kept ++ rest))) := by
  have hcount : op.operandCount? s = some op.arity := Operator.operandCount?_of_ne hindex s
  exact .moved group kept rest hactive (by rw [hcount, hlength])
    (fun _ hslot => hleaves.mem hvalue hslot) hleaves

/-! ### Families -/

theorem constant {name : String} (hname : Remainder.ofName name = .value) {v : Value}
    (hv : v ≠ .error .notAnError) (s : Machine) :
    Outcome (.constant name v) s ((Operator.constant name v).apply.run s) :=
  of_body fun _ => of_value [] rfl hname rfl fun h => absurd h hv

theorem unary {name : String} (hname : Remainder.ofName name = .value) {f : Value → Value}
    (hf : Value.Honest f) (s : Machine) :
    Outcome (.unary name f) s ((Operator.unary name f).apply.run s) := by
  refine of_body fun harity => ?_
  obtain ⟨a, rest, hactive, -⟩ := Stack.exists_of_lt_size harity
  rw [Operator.run_unary hactive]
  exact of_value [a] hactive hname rfl fun h => ⟨a, by simp, hf _ h⟩

theorem binary {name : String} (hname : Remainder.ofName name = .value)
    {f : Value → Value → Value} (hf : Value.Honest₂ f) (s : Machine) :
    Outcome (.binary name f) s ((Operator.binary name f).apply.run s) := by
  refine of_body fun harity => ?_
  obtain ⟨b, a, rest, hactive⟩ := Stack.exists_of_two_le harity
  rw [Operator.run_binary hactive]
  refine of_value [b, a] hactive hname rfl fun h => ?_
  rcases hf _ _ h with h | h
  · exact ⟨a, by simp, h⟩
  · exact ⟨b, by simp, h⟩

/-- A shuffle whose effect on a large enough segment is to rearrange its top slots. -/
theorem shuffle {name : String} {places : List Nat}
    (hname : Remainder.ofName name = .operands places) {arity : Nat}
    {f : Stack → Except OperatorError Stack}
    (hf : arity ≤ s.stack.size → ∃ group kept rest, s.stack.active = group ++ rest ∧
      group.length = arity ∧ kept.map some = places.map (group[·]?) ∧
      f s.stack = .ok { s.stack with active := kept ++ rest }) :
    Outcome (.shuffle name arity f) s ((Operator.shuffle name arity f).apply.run s) := by
  refine of_body fun harity => ?_
  obtain ⟨group, kept, rest, hactive, hlength, hkept, hstack⟩ := hf harity
  have hrun : (Operator.shuffle name arity f).body.run s
      = .ok () (s.withActive (kept ++ rest)) := Effect.run_onStack_ok hstack
  rw [hrun]
  have hindex : name ≠ "index" := by
    rintro rfl
    cases hname
  have hvalue : Remainder.ofName name ≠ .value := by
    rw [hname]
    simp
  have hleaves : (Remainder.ofName name).IsLeft group kept := by rwa [hname]
  exact of_slots group kept hactive hindex hvalue hlength hleaves

/-! ### Shuffles -/

/-- Turning the top slots around among themselves. -/
theorem rearrange {name : String} {places : List Nat}
    (hname : Remainder.ofName name = .operands places) (n : Nat) (f : List Slot → List Slot)
    (hf : ∀ group, group.length = n → (f group).map some = places.map (group[·]?))
    (s : Machine) :
    Outcome (.shuffle name n (·.rearrange n f)) s
      ((Operator.shuffle name n (·.rearrange n f)).apply.run s) := by
  refine shuffle hname fun harity => ?_
  have hlength : (s.stack.active.take n).length = n := List.length_take_of_le harity
  exact ⟨s.stack.active.take n, f (s.stack.active.take n), s.stack.active.drop n,
    (List.take_append_drop ..).symm, hlength, hf _ hlength, Stack.rearrange_eq harity f⟩

theorem dup (s : Machine) : Outcome (.shuffle "dup" 1 Stack.dup) s
    ((Operator.shuffle "dup" 1 Stack.dup).apply.run s) := by
  refine shuffle rfl fun harity => ?_
  obtain ⟨a, rest, hactive, -⟩ := Stack.exists_of_lt_size harity
  have ha : s.stack.active[0]? = some a := by rw [hactive]; rfl
  refine ⟨[a], [a, a], rest, hactive, rfl, rfl, ?_⟩
  rw [Stack.dup, Stack.pick_eq ha, Stack.push, hactive]
  rfl

theorem copyOver (s : Machine) : Outcome (.shuffle "over" 2 Stack.copyOver) s
    ((Operator.shuffle "over" 2 Stack.copyOver).apply.run s) := by
  refine shuffle rfl fun harity => ?_
  obtain ⟨b, a, rest, hactive⟩ := Stack.exists_of_two_le harity
  have ha : s.stack.active[1]? = some a := by rw [hactive]; rfl
  refine ⟨[b, a], [a, b, a], rest, hactive, rfl, rfl, ?_⟩
  rw [Stack.copyOver, Stack.pick_eq ha, Stack.push, hactive]
  rfl

theorem dup2 (s : Machine) : Outcome (.shuffle "dup2" 2 Stack.dup2) s
    ((Operator.shuffle "dup2" 2 Stack.dup2).apply.run s) := by
  refine shuffle rfl fun harity => ?_
  obtain ⟨b, a, rest, hactive⟩ := Stack.exists_of_two_le harity
  have ha : s.stack.active[1]? = some a := by rw [hactive]; rfl
  have hb : (s.stack.push a).active[1]? = some b := by rw [Stack.push, hactive]; rfl
  refine ⟨[b, a], [b, a, b, a], rest, hactive, rfl, rfl, ?_⟩
  rw [Stack.dup2, Stack.pick_eq ha]
  show (s.stack.push a).pick 2 = _
  rw [Stack.pick_eq hb, Stack.push, Stack.push, hactive]
  rfl

theorem drop (s : Machine) : Outcome (.shuffle "drop" 1 Stack.drop) s
    ((Operator.shuffle "drop" 1 Stack.drop).apply.run s) := by
  refine shuffle rfl fun harity => ?_
  obtain ⟨a, rest, hactive, -⟩ := Stack.exists_of_lt_size harity
  refine ⟨[a], [], rest, hactive, rfl, rfl, ?_⟩
  simp only [Stack.drop, Stack.pop, hactive]
  rfl

/-! ### Single operators -/

theorem depth (s : Machine) :
    Outcome ⟨"depth", 0, Builtin.depth⟩ s ((⟨"depth", 0, Builtin.depth⟩ : Operator).apply.run s) :=
  of_body fun _ => of_value [] rfl rfl rfl (by simp)

end Outcome

namespace Builtin

variable {s : Machine} {v lower upper : Slot} {rest : List Slot}

theorem run_cmp3 (h : s.stack.active = upper :: lower :: v :: rest) :
    cmp3.run s = .ok () (s.withActive
      (.value ((s.see v).position (s.see lower) (s.see upper)) :: rest)) := by
  simp only [cmp3, EStateM.run_bind, Effect.run_pop h,
    Effect.run_pop (s := s.withActive (lower :: v :: rest)) rfl,
    Effect.run_pop (s := s.withActive (v :: rest)) rfl, Effect.run_push,
    Machine.withActive_withActive]
  rfl

theorem run_constrain (h : s.stack.active = upper :: lower :: v :: rest) :
    constrain.run s = .ok () (s.withActive
      ((if (s.see v).lt (s.see lower) then lower
        else if (s.see v).gt (s.see upper) then upper else v) :: rest)) := by
  simp only [constrain, EStateM.run_bind, Effect.run_popSlot h,
    Effect.run_popSlot (s := s.withActive (lower :: v :: rest)) rfl,
    Effect.run_popSlot (s := s.withActive (v :: rest)) rfl, EStateM.run_get, Effect.run_pushSlot,
    Machine.withActive_withActive]
  rfl

end Builtin

namespace Outcome

variable {op : Operator} {s : Machine}

theorem cmp3 (s : Machine) :
    Outcome ⟨"cmp3", 3, Builtin.cmp3⟩ s ((⟨"cmp3", 3, Builtin.cmp3⟩ : Operator).apply.run s) := by
  refine of_body fun harity => ?_
  obtain ⟨upper, lower, v, rest, hactive⟩ := Stack.exists_of_three_le harity
  rw [Builtin.run_cmp3 hactive]
  refine of_value [upper, lower, v] hactive rfl rfl fun h => ?_
  rcases Value.position_eq h with h | h | h
  · exact ⟨v, by simp, h⟩
  · exact ⟨lower, by simp, h⟩
  · exact ⟨upper, by simp, h⟩

theorem constrain (s : Machine) : Outcome ⟨"constrain", 3, Builtin.constrain⟩ s
    ((⟨"constrain", 3, Builtin.constrain⟩ : Operator).apply.run s) := by
  refine of_body fun harity => ?_
  obtain ⟨upper, lower, v, rest, hactive⟩ := Stack.exists_of_three_le harity
  rw [Builtin.run_constrain hactive]
  have hmem : (if (s.see v).lt (s.see lower) then lower
      else if (s.see v).gt (s.see upper) then upper else v) ∈ [upper, lower, v] := by
    split
    · simp
    · split <;> simp
  exact of_slots [upper, lower, v] [_] hactive (by simp) (by decide) rfl ⟨_, hmem, rfl⟩

theorem ifn (s : Machine) :
    Outcome ⟨"ifn", 3, Builtin.ifn⟩ s ((⟨"ifn", 3, Builtin.ifn⟩ : Operator).apply.run s) := by
  refine of_body fun harity => ?_
  obtain ⟨otherwise, chosen, condition, rest, hactive⟩ := Stack.exists_of_three_le harity
  have hrun : Builtin.ifn.run s = .ok () (s.withActive
      ((if (s.see condition).toBoolean then chosen else otherwise) :: rest)) := by
    simp only [Builtin.ifn, EStateM.run_bind, Effect.run_popSlot hactive,
      Effect.run_popSlot (s := s.withActive (chosen :: condition :: rest)) rfl,
      Effect.run_pop (s := s.withActive (condition :: rest)) rfl, Effect.run_pushSlot,
      Machine.withActive_withActive]
    rfl
  rw [hrun]
  have hmem : (if (s.see condition).toBoolean then chosen else otherwise)
      ∈ [otherwise, chosen, condition] := by
    split <;> simp
  exact of_slots [otherwise, chosen, condition] [_] hactive (by simp) (by decide) rfl ⟨_, hmem, rfl⟩

theorem requireBound (s : Machine) : Outcome ⟨"exists", 1, Builtin.requireBound⟩ s
    ((⟨"exists", 1, Builtin.requireBound⟩ : Operator).apply.run s) := by
  refine of_body fun harity => ?_
  obtain ⟨top, rest, hactive, -⟩ := Stack.exists_of_lt_size harity
  have htop : s.stack.active[0]? = some top := by rw [hactive]; rfl
  simp only [Builtin.requireBound, EStateM.run_bind, Effect.run_slotAt htop]
  rcases top with v | v
  · exact .refused _ harity (by simp) (by simp) (by simp) (by simp)
  · simp only [EStateM.run_bind, EStateM.run_get]
    split
    · exact .refused _ harity (by simp) (by simp) (by simp) (by simp)
    · have hmoved : Outcome ⟨"exists", 1, Builtin.requireBound⟩ s
          (.ok () (s.withActive ([.variable v] ++ rest))) :=
        of_slots [.variable v] [.variable v] hactive (by simp) (by decide) rfl rfl
      rwa [List.singleton_append, ← hactive, Machine.withActive_active] at hmoved

end Outcome

/-- `=` takes both slots and writes to the cell that the top one refers to. -/
theorem Builtin.run_assign {s : Machine} {target : Variable} {source : Slot} {rest : List Slot}
    (hactive : s.stack.active = .variable target :: source :: rest) :
    Builtin.assign.run s = .ok () ((s.withActive rest).write target (s.see source)) := by
  have htop : s.stack.active[0]? = some (.variable target) := by rw [hactive]; rfl
  simp only [Builtin.assign, EStateM.run_bind, Effect.run_slotAt htop, Effect.run_popSlot hactive,
    Effect.run_pop (s := s.withActive (source :: rest)) rfl]
  rfl

namespace Outcome

theorem assign (s : Machine) :
    Outcome ⟨"=", 2, Builtin.assign⟩ s ((⟨"=", 2, Builtin.assign⟩ : Operator).apply.run s) := by
  refine of_body fun harity => ?_
  obtain ⟨top, source, rest, hactive⟩ := Stack.exists_of_two_le harity
  have htop : s.stack.active[0]? = some top := by rw [hactive]; rfl
  rcases top with v | target
  · simp only [Builtin.assign, EStateM.run_bind, Effect.run_slotAt htop]
    exact .refused _ harity (by simp) (by simp) (by simp) (by simp)
  · show Outcome _ s (Builtin.assign.run s)
    rw [Builtin.run_assign hactive]
    exact .assigned target source rest rfl hactive rfl

theorem stopUnless (s : Machine) : Outcome ⟨"end", 1, Builtin.stopUnless⟩ s
    ((⟨"end", 1, Builtin.stopUnless⟩ : Operator).apply.run s) := by
  refine of_body fun harity => ?_
  obtain ⟨top, rest, hactive, -⟩ := Stack.exists_of_lt_size harity
  simp only [Builtin.stopUnless, EStateM.run_bind, Effect.run_pop hactive]
  split
  · exact of_slots [top] [] hactive (by simp) (by decide) rfl rfl
  · exact .stopped top rest rfl hactive

/-! ### Operators that look at their operands first -/

end Outcome

namespace Builtin

theorem wholeArgument_error {v : Value} {code : OperatorError}
    (h : wholeArgument v = .error code) : code = .invalidArgument := by
  unfold wholeArgument at h
  split at h
  · split at h
    · split at h <;> cases h
      rfl
    · cases h
      rfl
  · cases h
    rfl

/-- A count of places is refused for its own error, or as an argument. -/
theorem decimalPlaces_error {v : Value} {failure : Failure}
    (h : decimalPlaces v = .error failure) :
    failure = .operator .invalidArgument ∨ ∃ code, failure = .value code ∧ v = .error code := by
  unfold decimalPlaces at h
  split at h
  · cases h
    exact .inr ⟨_, rfl, rfl⟩
  · split at h
    · split at h <;> cases h
      exact .inl rfl
    · next hw =>
      cases h
      rw [wholeArgument_error hw]
      exact .inl rfl

theorem groupSize_error {v : Value} {code : OperatorError} (h : groupSize v = .error code) :
    code = .invalidArgument := by
  unfold groupSize at h
  split at h
  · split at h <;> cases h
    rfl
  · next hw =>
    cases h
    exact wholeArgument_error hw

/-- An argument addresses a member of the group, or it is invalid. -/
theorem memberOf_cases (n : Nat) (v : Value) :
    (∃ k, k < n ∧ memberOf n v = .ok k) ∨ memberOf n v = .error .invalidArgument := by
  unfold memberOf
  split
  · next i _ =>
    dsimp only
    -- the bounds are all that matters of the place that the argument counts to
    generalize (if i.toInt < 0 then i.toInt + (n : Int) else i.toInt) = position
    split
    · exact .inr rfl
    · exact .inl ⟨position.toNat, by omega, rfl⟩
  · next hw =>
    rw [wholeArgument_error hw]
    exact .inr rfl

theorem memberOf_error {n : Nat} {v : Value} {code : OperatorError}
    (h : memberOf n v = .error code) : code = .invalidArgument := by
  rcases memberOf_cases n v with ⟨k, -, hok⟩ | herror
  · rw [hok] at h
    cases h
  · rw [herror] at h
    cases h
    rfl

/-- What an argument addresses is a member of the group. -/
theorem memberOf_lt {n k : Nat} {v : Value} (h : memberOf n v = .ok k) : k < n := by
  rcases memberOf_cases n v with ⟨k', hlt, hok⟩ | herror
  · rw [hok] at h
    cases h
    exact hlt
  · rw [herror] at h
    cases h

theorem run_floatAt {s : Machine} {n : Nat} {slot : Slot} (h : s.stack.active[n]? = some slot) :
    (floatAt (n + 1)).run s = match (s.see slot).requireFloat with
      | .ok x => .ok x s
      | .error code => .error (.value code) s := by
  simp only [floatAt, EStateM.run_bind, Effect.run_peek h]
  cases (s.see slot).requireFloat <;> rfl

end Builtin

/-- The top slots are arguments that `index` takes: the top one counts `n` slots below it, and the
one below those addresses the member `m` of them. -/
structure Machine.Requests (s : Machine) (n m : Nat) : Prop where
  count : (s.peek 1).bind Builtin.groupSize = .ok n
  size : n + 2 ≤ s.stack.size
  position : (s.peek (n + 2)).bind (Builtin.memberOf n) = .ok m

namespace Builtin

variable {s : Machine} {n m : Nat}

/-- The member that is addressed takes the place of the group and both arguments. -/
theorem run_index_of_requests (h : s.Requests n m) :
    ∃ slot, s.stack.active[n - m]? = some slot ∧
      index.run s = .ok () (s.withActive (slot :: s.stack.active.drop (n + 2))) := by
  have hsize : n + 2 ≤ s.stack.active.length := h.size
  have htop := List.getElem?_eq_getElem (show 0 < s.stack.active.length by omega)
  have hposition := List.getElem?_eq_getElem (show n + 1 < s.stack.active.length by omega)
  have hcount := h.count
  have hmember := h.position
  rw [Machine.peek_of_getElem? htop] at hcount
  rw [Machine.peek_of_getElem? hposition] at hmember
  have hmn : m < n := memberOf_lt hmember
  have hplace : n + 1 - m = n - m + 1 := by omega
  have hchosen := List.getElem?_eq_getElem (show n - m < s.stack.active.length by omega)
  refine ⟨_, hchosen, ?_⟩
  simp only [Except.bind] at hcount hmember
  simp only [index, EStateM.run_bind, Effect.run_peek htop, hcount, Effect.run_ofExcept_ok,
    Effect.run_size, if_neg (Nat.not_lt.2 h.size), Effect.run_peek hposition, hmember, hplace,
    Effect.run_slotAt hchosen, Effect.run_popMany h.size]
  rfl

/-- Any other arguments are refused, and nothing changes. -/
theorem run_index_of_not_requests (hsize : 2 ≤ s.stack.size) (h : ¬∃ n m, s.Requests n m) :
    index.run s = .error (.operator .invalidArgument) s := by
  have hpos : 0 < s.stack.active.length := Nat.lt_of_succ_lt hsize
  have htop := List.getElem?_eq_getElem hpos
  simp only [index, EStateM.run_bind, Effect.run_peek htop]
  cases hn : groupSize (s.see s.stack.active[0]) with
  | error code =>
    rw [groupSize_error hn]
    rfl
  | ok n =>
  simp only [Effect.run_ofExcept_ok, Effect.run_size]
  split
  · rfl
  · next hsize =>
    have hsize : n + 2 ≤ s.stack.size := Nat.not_lt.1 hsize
    have hlt : n + 1 < s.stack.active.length := hsize
    have hposition := List.getElem?_eq_getElem hlt
    simp only [EStateM.run_bind, Effect.run_peek hposition]
    cases hm : memberOf n (s.see s.stack.active[n + 1]) with
    | error code =>
      rw [memberOf_error hm]
      rfl
    | ok m =>
      refine absurd ⟨n, m, ?_, hsize, ?_⟩ h
      · rw [Machine.peek_of_getElem? htop]
        exact hn
      · rw [Machine.peek_of_getElem? hposition]
        exact hm

end Builtin

namespace Outcome

variable {op : Operator} {s : Machine}

/-- An argument that is refused is refused in the state as it was. -/
theorem refused_argument (harity : op.arity ≤ s.stack.size) {code : OperatorError}
    (h : code = .invalidArgument) : Outcome op s (.error (.operator code) s) := by
  subst h
  exact .refused _ harity (by simp) (by simp) (by simp) (by simp)

/-- So is an operand that is refused for the code that it carries. -/
theorem refused_value (harity : op.arity ≤ s.stack.size) {slot : Slot} {code : ValueError}
    (hslot : slot ∈ s.stack.active)
    (h : code = .notAnError → s.see slot = .error .notAnError) :
    Outcome op s (.error (.value code) s) := by
  refine .refused _ harity (by simp) (by simp) (by simp) fun hcode => ⟨slot, hslot, h ?_⟩
  cases hcode
  rfl

theorem round (s : Machine) :
    Outcome ⟨"round", 2, Builtin.round⟩ s
      ((⟨"round", 2, Builtin.round⟩ : Operator).apply.run s) := by
  refine of_body fun harity => ?_
  obtain ⟨digits, v, rest, hactive⟩ := Stack.exists_of_two_le harity
  have htop : s.stack.active[0]? = some digits := by rw [hactive]; rfl
  cases hd : Builtin.decimalPlaces (s.see digits) with
  | error failure =>
    have hrun : Builtin.round.run s = .error failure s := by
      simp only [Builtin.round, EStateM.run_bind, Effect.run_peek htop, hd]
      rfl
    rw [hrun]
    rcases Builtin.decimalPlaces_error hd with rfl | ⟨code, rfl, hv⟩
    · exact refused_argument harity rfl
    · exact refused_value harity (by rw [hactive]; simp) fun h => h ▸ hv
  | ok places =>
    have hrun : Builtin.round.run s = .ok () (s.withActive
        (.value ((s.see v).mapFloat (Binary64.roundPlaces · places)) :: rest)) := by
      simp only [Builtin.round, EStateM.run_bind, Effect.run_peek htop, hd, Effect.run_ofExcept_ok,
        Effect.run_popSlot hactive, Effect.run_pop (s := s.withActive (v :: rest)) rfl,
        Effect.run_push]
      rfl
    rw [hrun]
    exact of_value [digits, v] hactive rfl rfl fun h =>
      ⟨v, by simp, Value.honest_mapFloat _ _ h⟩

/-- An operand is turned into a float, or is refused for the reason that it is none. -/
theorem of_floatAt {n : Nat} (harity : op.arity ≤ s.stack.size) (hn : n < op.arity)
    {f : Float → Effect Unit} (hf : ∀ x, Outcome op s ((f x).run s)) :
    Outcome op s ((Builtin.floatAt (n + 1) >>= f).run s) := by
  have hlt : n < s.stack.active.length := Nat.lt_of_lt_of_le hn harity
  rw [EStateM.run_bind, Builtin.run_floatAt (List.getElem?_eq_getElem hlt)]
  cases hr : (s.see s.stack.active[n]).requireFloat with
  | ok x => exact hf x
  | error code =>
    exact refused_value harity (List.getElem_mem hlt) fun h => Value.requireFloat_eq (h ▸ hr)

theorem map (s : Machine) :
    Outcome ⟨"map", 5, Builtin.map⟩ s ((⟨"map", 5, Builtin.map⟩ : Operator).apply.run s) := by
  refine of_body fun harity => ?_
  -- the operands are converted one after the other, and the first refusal ends it
  refine of_floatAt harity (by decide) fun v => ?_
  refine of_floatAt harity (by decide) fun fromLow => ?_
  refine of_floatAt harity (by decide) fun fromHigh => ?_
  refine of_floatAt harity (by decide) fun toLow => ?_
  refine of_floatAt harity (by decide) fun toHigh => ?_
  split
  · exact refused_argument harity rfl
  · simp only [EStateM.run_bind, Effect.run_popMany harity]
    exact of_value (s.stack.active.take 5) (List.take_append_drop ..).symm rfl
      (List.length_take_of_le harity) (by simp)

theorem index (s : Machine) :
    Outcome ⟨"index", 2, Builtin.index⟩ s
      ((⟨"index", 2, Builtin.index⟩ : Operator).apply.run s) := by
  refine of_body fun harity => ?_
  by_cases h : ∃ n m, s.Requests n m
  · obtain ⟨n, m, h⟩ := h
    obtain ⟨slot, hslot, hrun⟩ := Builtin.run_index_of_requests h
    have hmem : slot ∈ s.stack.active.take (n + 2) := by
      obtain ⟨hlt, rfl⟩ := List.getElem?_eq_some_iff.1 hslot
      exact List.mem_take_iff_getElem.2 ⟨n - m, Nat.lt_min.2 ⟨by omega, hlt⟩, rfl⟩
    show Outcome _ s (Builtin.index.run s)
    rw [hrun]
    refine .moved (s.stack.active.take (n + 2)) [slot] (s.stack.active.drop (n + 2))
      (List.take_append_drop ..).symm ?_ (by simpa using hmem) ⟨_, hmem, rfl⟩
    rw [Operator.operandCount?_index rfl h.count, List.length_take_of_le h.size]
  · show Outcome _ s (Builtin.index.run s)
    rw [Builtin.run_index_of_not_requests harity h]
    exact refused_argument harity rfl

/-! ### The table -/

theorem of_mem_builtin {op : Operator} (h : op ∈ Builtin.operators) (s : Machine) :
    Outcome op s (op.apply.run s) := by
  revert op
  simp only [Builtin.operators, List.forall_mem_cons, List.not_mem_nil, false_implies, implies_true,
    and_true]
  exact ⟨binary rfl (Value.honest₂_arithmetic _) s, binary rfl (Value.honest₂_arithmetic _) s,
    binary rfl (Value.honest₂_arithmetic _) s, binary rfl (Value.honest₂_arithmetic _) s,
    binary rfl (Value.honest₂_arithmetic _) s, unary rfl Value.honest_abs s, round s,
    unary rfl (Value.honest_mapFloat _) s, unary rfl (Value.honest_mapFloat _) s,
    unary rfl Value.honest_toInteger s, binary rfl (Value.honest₂_boolean _) s,
    binary rfl (Value.honest₂_boolean _) s, binary rfl (Value.honest₂_boolean _) s,
    binary rfl (Value.honest₂_boolean _) s, binary rfl (Value.honest₂_boolean _) s,
    binary rfl (Value.honest₂_boolean _) s, binary rfl Value.honest₂_comparison s, cmp3 s,
    binary rfl (Value.honest₂_boolean _) s, binary rfl (Value.honest₂_boolean _) s,
    binary rfl (Value.honest₂_boolean _) s, unary rfl (Value.honest_boolean _) s, dup s, dup2 s,
    copyOver s, rearrange rfl 2 (·.rotateLeft 1) (fun | [_, _], _ => rfl) s,
    rearrange rfl 3 (·.rotateRight 1) (fun | [_, _, _], _ => rfl) s,
    rearrange rfl 3 (·.rotateLeft 1) (fun | [_, _, _], _ => rfl) s, drop s, depth s,
    constant rfl (by simp) s, constant rfl (by simp) s, index s, map s, constrain s,
    requireBound s, assign s, ifn s, stopUnless s⟩

theorem of_mem_elementary {lib : ElementaryFunctions} {op : Operator} (h : op ∈ lib.operators)
    (s : Machine) : Outcome op s (op.apply.run s) := by
  revert op
  simp only [ElementaryFunctions.operators, List.forall_mem_cons, List.not_mem_nil, false_implies,
    implies_true, and_true]
  exact ⟨unary rfl (ElementaryFunctions.honest_onFinite _) s,
    unary rfl (ElementaryFunctions.honest_onFinite _) s,
    unary rfl (ElementaryFunctions.honest_onFinite _) s,
    unary rfl (ElementaryFunctions.honest_onFinite _) s,
    unary rfl (ElementaryFunctions.honest_onFinite _) s,
    unary rfl (ElementaryFunctions.honest_onFinite _) s,
    unary rfl (ElementaryFunctions.honest_onFinite _) s,
    binary rfl (ElementaryFunctions.honest₂_onPair lib.checkedRemainder_ne) s,
    binary rfl (ElementaryFunctions.honest₂_onPair fun _ _ => ElementaryFunctions.finite_ne _) s⟩

theorem of_mem {lib : ElementaryFunctions} {op : Operator}
    (h : op ∈ (OperatorTable.standard lib).operators) (s : Machine) :
    Outcome op s (op.apply.run s) := by
  rcases List.mem_append.1 h with h | h
  · exact of_mem_builtin h s
  · exact of_mem_elementary h s

/-- A new calculator has operators of the standard table only, whatever it is set up with. -/
theorem of_mem_new {config : Config} {lib : ElementaryFunctions} {op : Operator}
    (h : op ∈ (Calculator.new config lib).table.operators) (s : Machine) :
    Outcome op s (op.apply.run s) := by
  rcases List.mem_append.1 h with h | h
  · split at h
    · exact of_mem_builtin h s
    · cases h
  · split at h
    · exact of_mem_elementary h s
    · cases h

end Outcome

/-- No operator has the name of a bracket. -/
theorem OperatorTable.ne_bracket_of_find? {lib : ElementaryFunctions} {word : String} {op : Operator}
    (h : (OperatorTable.standard lib).find? word = some op) : word ≠ "[" ∧ word ≠ "]" := by
  constructor
  · rintro rfl
    cases h
  · rintro rfl
    cases h

/-- **Every operator of the standard table**, whatever the state, comes to one of these. -/
theorem outcome_of_find? {lib : ElementaryFunctions} {name : String} {op : Operator}
    (h : (OperatorTable.standard lib).find? name = some op) (s : Machine) :
    op.name = name ∧ Outcome op s (op.apply.run s) := by
  have hname : op.name = name := by simpa using List.find?_some h
  exact ⟨hname, Outcome.of_mem (List.mem_of_find?_eq_some h) s⟩

theorem Outcome.of_run {lib : ElementaryFunctions} {name : String} {op : Operator} {s : Machine}
    {result : EStateM.Result Failure Machine Unit}
    (hoperator : (OperatorTable.standard lib).find? name = some op)
    (h : op.apply.run s = result) : Outcome op s result :=
  h ▸ (outcome_of_find? hoperator s).2

end ReversePolish
