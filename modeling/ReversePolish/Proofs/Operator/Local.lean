import ReversePolish.Proofs.Machine.Active
import ReversePolish.Proofs.Operator.Outcome
/-!
# Operators reach the active segment only

What is parked below the active segment makes no difference to an operator, and an operator makes
none to it. `Effect.Local` says both at once: with other parked segments an effect comes to the same
result, in the same state but for those segments. The elementary effects are local, apart from those
that open and close segments, and what is put together from local effects is local; so every
operator of the standard table is (`Operator.local_of_find?`).
-/

namespace ReversePolish

/-! ## Replacing the parked segments -/

namespace Stack

/-- The stack with other parked segments. -/
def withParked (s : Stack) (parked : List (List Slot)) : Stack := { s with parked }

/-- A change of the stack that the parked segments do not concern. -/
def Local (f : Stack → Except OperatorError Stack) : Prop :=
  ∀ s parked, f (s.withParked parked) = (f s).map (·.withParked parked)

theorem pop_withParked (s : Stack) (parked : List (List Slot)) :
    (s.withParked parked).pop = s.pop.map fun (top, rest) => (top, rest.withParked parked) := by
  obtain ⟨active, _⟩ := s
  cases active <;> rfl

theorem popMany_withParked (s : Stack) (parked : List (List Slot)) (n : Nat) :
    (s.withParked parked).popMany n
      = (s.popMany n).map fun (slots, rest) => (slots, rest.withParked parked) := by
  unfold popMany
  show (if n > s.size then _ else _) = _
  split <;> rfl

theorem local_rearrange (n : Nat) (f : List Slot → List Slot) : Local (·.rearrange n f) := by
  intro s parked
  simp only [rearrange, popMany_withParked]
  cases s.popMany n <;> rfl

theorem local_pick (n : Nat) : Local (·.pick n) := by
  intro s parked
  have hslot : (s.withParked parked).slotAt n = s.slotAt n := by cases n <;> rfl
  simp only [pick, hslot]
  cases s.slotAt n <;> rfl

theorem local_dup2 : Local dup2 := by
  intro s parked
  simp only [dup2, local_pick 2 s parked]
  cases s.pick 2 with
  | error code => rfl
  | ok s' => exact local_pick 2 s' parked

theorem local_drop : Local drop := by
  intro s parked
  simp only [drop, pop_withParked]
  cases s.pop <;> rfl

end Stack

namespace Machine

/-- The state with other parked segments. -/
def withParked (s : Machine) (parked : List (List Slot)) : Machine :=
  { s with stack := s.stack.withParked parked }

variable (s : Machine) (parked : List (List Slot))

@[simp] theorem stack_withParked : (s.withParked parked).stack = s.stack.withParked parked := rfl

@[simp] theorem parked_withParked : (s.withParked parked).stack.parked = parked := rfl

@[simp] theorem registry_withParked : (s.withParked parked).registry = s.registry := rfl

@[simp] theorem withParked_parked : s.withParked s.stack.parked = s := rfl

end Machine

/-! ## Local effects -/

namespace Effect

variable {α β : Type}

/-- A result with other parked segments in its state. -/
def withParked (parked : List (List Slot)) :
    EStateM.Result Failure Machine α → EStateM.Result Failure Machine α
  | .ok a s => .ok a (s.withParked parked)
  | .error failure s => .error failure (s.withParked parked)

/-- An effect that the parked segments do not concern. -/
def Local (e : Effect α) : Prop :=
  ∀ s parked, e.run (s.withParked parked) = withParked parked (e.run s)

namespace Local

/-! ### What is put together from local effects -/

theorem pure (a : α) : Local (Pure.pure a) := fun _ _ => rfl

theorem throw (failure : Failure) : Local (MonadExcept.throw failure : Effect α) := fun _ _ => rfl

theorem bind {e : Effect α} {f : α → Effect β} (he : Local e) (hf : ∀ a, Local (f a)) :
    Local (e >>= f) := by
  intro s parked
  rw [EStateM.run_bind, EStateM.run_bind, he]
  cases e.run s with
  | ok a s' => exact hf a s' parked
  | error failure s' => rfl

/-- A look at the state that sees nothing of the parked segments. -/
theorem get {f : Machine → Effect β} (hview : ∀ s parked, f (s.withParked parked) = f s)
    (hf : ∀ s, Local (f s)) : Local (MonadState.get >>= f) := by
  intro s parked
  rw [EStateM.run_bind, EStateM.run_bind]
  show (f (s.withParked parked)).run (s.withParked parked) = withParked parked ((f s).run s)
  rw [hview]
  exact hf s s parked

theorem ite {c : Prop} [Decidable c] {e e' : Effect α} (he : Local e) (he' : Local e') :
    Local (if c then e else e') := by
  split
  · exact he
  · exact he'

/-- A check in front of a local effect. -/
theorem guard {c : Prop} [Decidable c] {failure : Failure} {e : Effect α} (he : Local e) :
    Local (do
      if c then MonadExcept.throw failure
      e) :=
  ite (bind (throw failure) fun _ => he) he

theorem ofExcept {ε : Type} (tag : ε → Failure) (r : Except ε α) :
    Local (Effect.ofExcept tag r) := by
  intro s parked
  cases r <;> rfl

theorem modify {f : Machine → Machine}
    (hf : ∀ s parked, f (s.withParked parked) = (f s).withParked parked) :
    Local (modify f) := by
  intro s parked
  show EStateM.Result.ok () (f (s.withParked parked)) = .ok () ((f s).withParked parked)
  rw [hf]

theorem ofStep {ε : Type} (tag : ε → Failure) {step : Machine → Except ε (α × Machine)}
    (hstep : ∀ s parked, step (s.withParked parked)
      = (step s).map fun (a, s') => (a, s'.withParked parked)) :
    Local (Effect.ofStep tag step) := by
  intro s parked
  rw [run_ofStep, run_ofStep, hstep]
  cases step s <;> rfl

/-! ### The elementary effects -/

theorem popSlot : Local Effect.popSlot := by
  refine ofStep _ fun s parked => ?_
  simp only [Machine.popSlot, Machine.stack_withParked, Stack.pop_withParked]
  cases s.stack.pop <;> rfl

theorem pop : Local Effect.pop := by
  refine ofStep _ fun s parked => ?_
  simp only [Machine.pop, Machine.popSlot, Machine.stack_withParked, Stack.pop_withParked]
  cases s.stack.pop <;> rfl

theorem popMany (n : Nat) : Local (Effect.popMany n) := by
  refine ofStep _ fun s parked => ?_
  simp only [Machine.popMany, Machine.stack_withParked, Stack.popMany_withParked]
  cases s.stack.popMany n <;> rfl

theorem push (v : Value) : Local (Effect.push v) := modify fun _ _ => rfl

theorem pushSlot (slot : Slot) : Local (Effect.pushSlot slot) := modify fun _ _ => rfl

theorem slotAt (n : Nat) : Local (Effect.slotAt n) :=
  get (fun _ _ => rfl) fun _ => ofExcept _ _

theorem peek (n : Nat) : Local (Effect.peek n) := get (fun _ _ => rfl) fun _ => ofExcept _ _

theorem size : Local Effect.size := get (fun _ _ => rfl) fun _ => pure _

theorem refer (name : String) (create : Bool) : Local (Effect.refer name create) := by
  refine ofStep _ fun s parked => ?_
  simp only [Machine.refer, Machine.obtain, Machine.registry_withParked]
  cases create <;> cases s.registry.lookup? name <;> rfl

theorem onStack {f : Stack → Except OperatorError Stack} (hf : Stack.Local f) :
    Local (Effect.onStack f) := by
  refine ofStep _ fun s parked => ?_
  simp only [Machine.stack_withParked, hf s.stack parked]
  cases f s.stack <;> rfl

end Local

end Effect

/-! ## Operators -/

namespace Operator

open Effect

/-- An operator is local if its body is: all that is looked at before is the size of the active
segment. -/
theorem local_apply {op : Operator} (h : Local op.body) : Local op.apply :=
  .bind .size fun _ => .guard h

/-! ### Families -/

theorem local_constant (name : String) (v : Value) : Local (constant name v).body := .push v

theorem local_unary (name : String) (f : Value → Value) : Local (unary name f).body :=
  .bind .pop fun _ => .push _

theorem local_binary (name : String) (f : Value → Value → Value) : Local (binary name f).body :=
  .bind .pop fun _ => .bind .pop fun _ => .push _

theorem local_shuffle (name : String) (arity : Nat) {f : Stack → Except OperatorError Stack}
    (hf : Stack.Local f) : Local (shuffle name arity f).body :=
  .onStack hf

/-! ### Single operators -/

theorem local_round : Local Builtin.round :=
  .bind (.peek 1) fun _ => .bind (.ofExcept _ _) fun _ => .bind .popSlot fun _ =>
    .bind .pop fun _ => .push _

theorem local_floatAt (n : Nat) : Local (Builtin.floatAt n) :=
  .bind (.peek n) fun _ => .ofExcept _ _

theorem local_map : Local Builtin.map :=
  .bind (local_floatAt 5) fun _ => .bind (local_floatAt 4) fun _ =>
    .bind (local_floatAt 3) fun _ => .bind (local_floatAt 2) fun _ =>
    .bind (local_floatAt 1) fun _ =>
    .guard (.bind (.popMany 5) fun _ => .push _)

theorem local_cmp3 : Local Builtin.cmp3 :=
  .bind .pop fun _ => .bind .pop fun _ => .bind .pop fun _ => .push _

theorem local_depth : Local Builtin.depth := .bind .size fun _ => .push _

theorem local_index : Local Builtin.index :=
  .bind (.peek 1) fun _ => .bind (.ofExcept _ _) fun _ => .bind .size fun _ =>
    .guard (.bind (.peek _) fun _ => .bind (.ofExcept _ _) fun _ => .bind (.slotAt _) fun _ =>
      .bind (.popMany _) fun _ => .pushSlot _)

theorem local_constrain : Local Builtin.constrain :=
  .bind .popSlot fun _ => .bind .popSlot fun _ => .bind .popSlot fun _ =>
    .get (fun _ _ => rfl) fun _ => .pushSlot _

theorem local_ifn : Local Builtin.ifn :=
  .bind .popSlot fun _ => .bind .popSlot fun _ => .bind .pop fun _ => .pushSlot _

theorem local_requireBound : Local Builtin.requireBound := by
  refine .bind (.slotAt 1) fun slot => ?_
  cases slot with
  | value v => exact .throw _
  | «variable» v => exact .get (fun _ _ => rfl) fun _ => .ite (.throw _) (.pure _)

theorem local_assign : Local Builtin.assign := by
  refine .bind (.slotAt 1) fun slot => ?_
  cases slot with
  | value v => exact .throw _
  | «variable» target =>
    exact .bind .popSlot fun _ => .bind .pop fun _ => .modify fun _ _ => rfl

theorem local_stopUnless : Local Builtin.stopUnless :=
  .bind .pop fun _ => .ite (.pure _) (.throw _)

/-! ### The table -/

theorem local_of_mem_builtin {op : Operator} (h : op ∈ Builtin.operators) : Local op.body := by
  revert op
  simp only [Builtin.operators, List.forall_mem_cons, List.not_mem_nil, false_implies, implies_true,
    and_true]
  exact ⟨local_binary _ _, local_binary _ _, local_binary _ _, local_binary _ _, local_binary _ _,
    local_unary _ _, local_round, local_unary _ _, local_unary _ _, local_unary _ _,
    local_binary _ _, local_binary _ _, local_binary _ _, local_binary _ _, local_binary _ _,
    local_binary _ _, local_binary _ _, local_cmp3, local_binary _ _, local_binary _ _,
    local_binary _ _, local_unary _ _, local_shuffle _ _ (Stack.local_pick 1),
    local_shuffle _ _ Stack.local_dup2, local_shuffle _ _ (Stack.local_pick 2),
    local_shuffle _ _ (Stack.local_rearrange 2 (·.rotateLeft 1)),
    local_shuffle _ _ (Stack.local_rearrange 3 (·.rotateRight 1)),
    local_shuffle _ _ (Stack.local_rearrange 3 (·.rotateLeft 1)),
    local_shuffle _ _ Stack.local_drop, local_depth, local_constant _ _, local_constant _ _,
    local_index, local_map, local_constrain, local_requireBound, local_assign, local_ifn,
    local_stopUnless⟩

theorem local_of_mem_elementary {lib : ElementaryFunctions} {op : Operator}
    (h : op ∈ lib.operators) : Local op.body := by
  revert op
  simp only [ElementaryFunctions.operators, List.forall_mem_cons, List.not_mem_nil, false_implies,
    implies_true, and_true]
  exact ⟨local_unary _ _, local_unary _ _, local_unary _ _, local_unary _ _, local_unary _ _,
    local_unary _ _, local_unary _ _, local_binary _ _, local_binary _ _⟩

/-- **Every operator of the standard table** is local. -/
theorem local_of_find? {lib : ElementaryFunctions} {name : String} {op : Operator}
    (h : (OperatorTable.standard lib).find? name = some op) : Local op.apply := by
  have hmem : op ∈ Builtin.operators ++ lib.operators := List.mem_of_find?_eq_some h
  refine local_apply ?_
  rcases List.mem_append.1 hmem with hmem | hmem
  · exact local_of_mem_builtin hmem
  · exact local_of_mem_elementary hmem

end Operator

end ReversePolish
