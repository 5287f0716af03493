import ReversePolish.Operator.Host
import ReversePolish.Proofs.Variable.Aliasing
/-!
# Cells that only slots share with the registry

Who holds a cell of the registry besides its entry? A slot may, which refers to the variable. The
host may, if it keeps a handle, and so may a second entry, if there ever were two entries with one
cell. `Machine.Unshared` rules out the last two, and it is an invariant: an entry is only ever made
with a new cell, and nothing an operator does of its own accord makes a handle.

An operator of the host could break it, so this is asked of a table
(`OperatorTable.KeepsUnshared`); the standard operators keep it, and so do those of
`HostOperator`. Then every text and every call of the host keep it.
-/

namespace ReversePolish

namespace Machine

/-- The registry shares its cells with slots and with nobody else: the host keeps no handles, and no
two entries have the same cell. The cells have all been handed out, so a new entry shares its cell
with nobody either. -/
structure Unshared (s : Machine) : Prop where
  distinct : (s.registry.entries.map Variable.cell).Nodup
  allocated : ∀ v ∈ s.registry.entries, v.cell < s.cells.next
  unheld : s.handles = []

namespace Unshared

variable {s s' : Machine}

theorem of_new (hregistry : s.registry = {}) (hhandles : s.handles = []) : s.Unshared := by
  refine ⟨?_, ?_, hhandles⟩ <;> simp [hregistry, Registry.entries]

/-- What changes slots and the contents of cells only. -/
theorem keep (hs : s.Unshared) (hregistry : s'.registry = s.registry)
    (hnext : s'.cells.next = s.cells.next) (hhandles : s'.handles = s.handles) : s'.Unshared := by
  refine ⟨?_, ?_, hhandles.trans hs.unheld⟩
  · rw [hregistry]
    exact hs.distinct
  · rw [hregistry, hnext]
    exact hs.allocated

theorem withStack (hs : s.Unshared) (stack : Stack) : ({ s with stack } : Machine).Unshared :=
  hs.keep rfl rfl rfl

theorem create (hs : s.Unshared) (name : String) (value : Value) :
    (s.create name value).Unshared :=
  ⟨nodup_create hs.allocated hs.distinct name value, allocated_create hs.allocated name value,
    hs.unheld⟩

theorem set (hs : s.Unshared) (name : String) (value : Value) : (s.set name value).Unshared := by
  unfold Machine.set
  split
  · exact hs.keep rfl (Cells.next_write ..) rfl
  · exact hs.create name value

/-- Entries may go. -/
theorem shrink (hs : s.Unshared) {registry : Registry}
    (hsub : registry.byName.Sublist s.registry.byName) :
    ({ s with registry } : Machine).Unshared := by
  have hentries : registry.entries.Sublist s.registry.entries := hsub.map _
  exact ⟨hs.distinct.sublist (hentries.map _), fun v hv => hs.allocated v (hentries.subset hv),
    hs.unheld⟩

theorem filter (hs : s.Unshared) (p : Variable → Bool) :
    ({ s with registry := s.registry.filter p } : Machine).Unshared :=
  hs.shrink List.filter_sublist

theorem dropLoose (hs : s.Unshared) : s.dropLoose.Unshared := hs.filter _

/-- Pushing a reference, to a new variable if need be. -/
theorem refer (hs : s.Unshared) {name : String} {create : Bool}
    (h : s.refer name create = .ok s') : s'.Unshared := by
  unfold Machine.refer Machine.obtain at h
  cases hlookup : s.registry.lookup? name with
  | some v =>
    cases create <;> simp only [hlookup] at h <;> cases h <;> exact hs.withStack _
  | none =>
    cases create with
    | false => simp only [hlookup] at h; cases h
    | true =>
      simp only [hlookup] at h
      cases h
      exact (hs.create name .null).withStack _

theorem pop (hs : s.Unshared) {v : Value} (h : s.pop = .ok (v, s')) : s'.Unshared := by
  unfold Machine.pop Machine.popSlot at h
  cases hpop : s.stack.pop with
  | error code => rw [hpop] at h; cases h
  | ok r =>
    rw [hpop] at h
    cases h
    exact hs.withStack _

end Unshared

end Machine

/-! ## Effects of a host -/

namespace Effect

variable {α β : Type}

/-- Neither its result nor its failure leaves a cell of the registry in other hands. -/
def KeepsUnshared (e : Effect α) : Prop := ∀ s, s.Unshared → (stateOf (e.run s)).Unshared

namespace KeepsUnshared

theorem throw (failure : Failure) :
    KeepsUnshared (MonadExcept.throw failure : Effect α) := fun _ hs => hs

theorem bind {e : Effect α} {f : α → Effect β} (he : e.KeepsUnshared)
    (hf : ∀ a, (f a).KeepsUnshared) : (e >>= f).KeepsUnshared := by
  intro s hs
  have hreached := he s hs
  rw [EStateM.run_bind]
  cases hrun : e.run s with
  | ok a s' =>
    rw [hrun] at hreached
    exact hf a s' hreached
  | error failure s' =>
    rw [hrun] at hreached
    exact hreached

theorem get : KeepsUnshared (MonadState.get : Effect Machine) := fun _ hs => hs

/-- A check in front of an effect. -/
theorem guard {c : Prop} [Decidable c] {failure : Failure} {e : Effect α} (he : e.KeepsUnshared) :
    KeepsUnshared (do
      if c then MonadExcept.throw failure
      e) := by
  split
  · exact .bind (.throw failure) fun _ => he
  · exact he

theorem ofExcept {ε : Type} (tag : ε → Failure) (r : Except ε α) :
    KeepsUnshared (Effect.ofExcept tag r) := by
  intro s hs
  cases r <;> exact hs

theorem ofStep {ε : Type} (tag : ε → Failure) {step : Machine → Except ε (α × Machine)}
    (hstep : ∀ s a s', s.Unshared → step s = .ok (a, s') → s'.Unshared) :
    KeepsUnshared (Effect.ofStep tag step) := by
  intro s hs
  rw [run_ofStep]
  cases h : step s with
  | ok r => exact hstep s r.1 r.2 hs h
  | error code => exact hs

theorem push (v : Value) : KeepsUnshared (Effect.push v) := fun _ hs => hs.withStack _

theorem pop : KeepsUnshared Effect.pop := ofStep _ fun _ _ _ hs h => hs.pop h

theorem popMany (n : Nat) : KeepsUnshared (Effect.popMany n) := by
  refine ofStep _ fun s slots s' hs h => ?_
  unfold Machine.popMany at h
  cases hpop : s.stack.popMany n with
  | error code => rw [hpop] at h; cases h
  | ok r =>
    rw [hpop] at h
    cases h
    exact hs.withStack _

theorem onStack {ε : Type} (tag : ε → Failure) (f : Stack → Except ε Stack) :
    KeepsUnshared (Effect.ofStep tag fun s => (f s.stack).map fun stack =>
      ((), { s with stack })) := by
  refine ofStep _ fun s _ s' hs h => ?_
  cases hf : f s.stack with
  | error code => simp only [hf] at h; cases h
  | ok stack =>
    simp only [hf] at h
    cases h
    exact hs.withStack _

theorem refer (name : String) (create : Bool) : KeepsUnshared (Effect.refer name create) := by
  refine ofStep _ fun s _ s' hs h => ?_
  cases hrefer : s.refer name create with
  | error code => rw [hrefer] at h; cases h
  | ok reached =>
    rw [hrefer] at h
    cases h
    exact hs.refer hrefer

end KeepsUnshared

end Effect

/-- An operator keeps to the rule if its body does. -/
theorem Operator.keepsUnshared_apply {op : Operator} (h : op.body.KeepsUnshared) :
    op.apply.KeepsUnshared :=
  .bind (fun _ hs => hs) fun _ => .guard h

theorem HostOperator.keepsUnshared_body (op : HostOperator) : op.body.KeepsUnshared := by
  cases op with
  | sum =>
    exact .bind .pop fun _ => .bind (.ofExcept _ _) fun _ => .bind (fun _ hs => hs) fun _ =>
      .guard (.bind (.popMany _) fun _ => .bind .get fun _ => .push _)
  | cannotContinue | decline | failValue => exact .throw _
  | pushText | pushNull | pushError => exact .push _
  | rollFour => exact .onStack _ (·.roll 4)
  | openSegment => exact fun _ hs => hs.withStack _
  | closeSegment => exact .onStack _ _
  | createVariable | requireVariable => exact .refer _ _
  | dropTwo => exact .bind .pop fun _ => .bind .pop fun _ => fun _ hs => hs

/-! ## Tables -/

/-- What can come of an operator of the standard table changes no handles. -/
theorem Outcome.handles_eq {op : Operator} {s : Machine}
    {result : EStateM.Result Failure Machine Unit} (h : Outcome op s result) :
    (Effect.stateOf result).handles = s.handles := by
  cases h <;> rfl

theorem Outcome.unshared {op : Operator} {s : Machine}
    {result : EStateM.Result Failure Machine Unit} (h : Outcome op s result) (hs : s.Unshared) :
    (Effect.stateOf result).Unshared :=
  hs.keep h.keepsVariables.registry h.keepsVariables.next h.handles_eq

namespace OperatorTable

/-- No operator of the table leaves a cell of the registry in other hands. -/
def KeepsUnshared (table : OperatorTable) : Prop :=
  ∀ op ∈ table.operators, op.apply.KeepsUnshared

/-- A host may add what keeps to the rule. -/
theorem KeepsUnshared.register {table : OperatorTable} (htable : table.KeepsUnshared)
    {op : Operator} (hop : op.body.KeepsUnshared) : (table.register op).KeepsUnshared := by
  intro other hother
  rcases List.mem_append.1 hother with hother | hother
  · exact htable other hother
  · cases List.mem_singleton.1 hother
    exact Operator.keepsUnshared_apply hop

end OperatorTable

/-- Whichever of the standard operators a calculator is set up with. -/
theorem Calculator.keepsUnshared_new (config : Config) (lib : ElementaryFunctions) :
    (Calculator.new config lib).table.KeepsUnshared :=
  fun _ hop s hs => (Outcome.of_mem_new hop s).unshared hs

/-! ## A token, a text, and a session -/

section

variable {table : OperatorTable} (htable : table.KeepsUnshared)
include htable

theorem Executed.unshared {mustExist : Bool} {t : Token} {s : Machine}
    {result : EStateM.Result Failure Machine Unit} (h : Executed table mustExist t s result)
    (hs : s.Unshared) : (Effect.stateOf result).Unshared := by
  have hoperator : ∀ op, table.find? t.text = some op →
      (Effect.stateOf (op.apply.run s)).Unshared :=
    fun op hop => htable op (List.mem_of_find?_eq_some hop) s hs
  cases h with
  | pushed | known | opened | closed => exact hs.withStack _
  | created => exact (hs.create _ _).withStack _
  | missing | unopened | unresolved => exact hs
  | failed op _ s' _ hop h | spoiled op _ s' _ hop h | applied op s' _ hop h =>
    have hs' := hoperator op hop
    rwa [h] at hs'

/-- A text leaves no cell of the registry in other hands, however it ends. -/
theorem unshared_runText {s : Machine} (hs : s.Unshared) (capacity : Nat) (mustExist : Bool)
    (text : String) : (runText table capacity mustExist text s).machine.Unshared :=
  runText_induction (fun _ _ _ hs h => h.unshared htable hs) hs capacity text

end

/-- Every call of the host. -/
theorem Calculator.unshared_after {c : Calculator} (htable : c.table.KeepsUnshared)
    (hs : c.machine.Unshared) (call : HostCall) : (c.after call).machine.Unshared := by
  cases call with
  | evaluate text mustExist => exact (unshared_runText htable hs _ _ text).dropLoose
  | push v => exact hs.withStack _
  | pop =>
    simp only [after, Calculator.pop]
    split
    · next v machine h => exact hs.pop h
    · exact hs
  | define name v => exact hs.set name v
  | forget name =>
    simp only [after, Calculator.forget, Machine.forget]
    cases c.machine.registry.lookup? name with
    | none => exact hs
    | some v => exact hs.shrink List.filter_sublist
  | clear => exact .of_new rfl hs.unheld

/-- **Whatever a host does with a new calculator,** the cells of the registry stay unshared, and
table and configuration are those it was set up with. -/
theorem Session.unshared_run {c : Calculator} (htable : c.table.KeepsUnshared)
    (hs : c.machine.Unshared) (calls : List HostCall) :
    let reached := (Session.run ⟨c, []⟩ calls).calculator
    reached.table = c.table ∧ reached.config = c.config ∧ reached.machine.Unshared := by
  refine Session.run_induction
    (P := fun s => s.calculator.table = c.table ∧ s.calculator.config = c.config ∧
      s.calculator.machine.Unshared) (fun s call h => ?_) ⟨rfl, rfl, hs⟩ calls
  obtain ⟨heq, hconfig, hs⟩ := h
  obtain ⟨htable', hconfig'⟩ := s.calculator.table_after call
  rw [← heq] at htable
  exact ⟨htable'.trans heq, hconfig'.trans hconfig, Calculator.unshared_after htable hs call⟩

end ReversePolish
