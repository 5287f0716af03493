import ReversePolish.Proofs.Evaluation.Executed
import ReversePolish.Proofs.Host.Session
import ReversePolish.Proofs.Operator.Discipline
/-!
# References stay attached to their variables

A slot that refers to a variable and the registry entry of that variable share a cell, or else a
write through one of them is not seen through the other. The registry changes under the slots all
the time: entries are made when a name is first used, dropped when they are loose, and forgotten by
the host. Only the last of these takes an entry from under a slot.

`Machine.Attached` is the invariant. It has to say more than that references are attached: that a
variable is looked up by its own name, so that a reference to what was found is one to the entry of
its name, and that the cells of the registry are distinct and have all been handed out, so that a
new entry shares its cell with nobody. An operator keeps it because it changes neither the registry
nor the number of cells and makes no reference that was not on the stack before
(`Machine.KeepsVariables`).
-/

namespace ReversePolish

/-! ## The invariant -/

namespace Machine

/-- One entry for each name, which is that of its variable, one cell for each entry, and every
reference in any segment whose name is not among the forgotten ones is the entry of that name. -/
structure Attached (s : Machine) (forgotten : List String) : Prop where
  registry : s.registry.WellFormed
  cells : (s.registry.entries.map Variable.cell).Nodup
  allocated : ∀ v ∈ s.registry.entries, v.cell < s.cells.next
  slots : ∀ v, Slot.variable v ∈ s.stack.slots → v.name ∉ forgotten →
    (v.name, v) ∈ s.registry.byName

section

variable {s : Machine} (hallocated : ∀ v ∈ s.registry.entries, v.cell < s.cells.next)
include hallocated

/-- A new entry has a cell of its own. -/
theorem nodup_create (hcells : (s.registry.entries.map Variable.cell).Nodup) (name : String)
    (value : Value) : ((s.create name value).registry.entries.map Variable.cell).Nodup := by
  have hcell : s.cells.next ∉ s.registry.entries.map Variable.cell := by
    intro hmem
    obtain ⟨v, hv, heq⟩ := List.mem_map.1 hmem
    have hlt := hallocated v hv
    exact Nat.ne_of_lt hlt heq
  have hperm := s.registry.entries_insert_perm name ⟨name, s.cells.next⟩
  exact (hperm.map Variable.cell).nodup_iff.2 (List.nodup_cons.2 ⟨hcell, hcells⟩)

theorem allocated_create (name : String) (value : Value) :
    ∀ v ∈ (s.create name value).registry.entries, v.cell < (s.create name value).cells.next := by
  intro v hv
  show v.cell < (s.cells.alloc value).next
  rw [Cells.next_alloc]
  rcases Registry.mem_insert.1 hv with rfl | hold
  · exact Nat.lt_succ_self _
  · have hlt := hallocated v hold
    exact Nat.lt_succ_of_lt hlt

end

namespace Attached

variable {s s' : Machine} {forgotten : List String}

/-- Where there are neither slots nor variables. -/
theorem of_empty (hstack : s.stack = {}) (hregistry : s.registry = {}) :
    s.Attached forgotten := by
  refine ⟨hregistry ▸ .empty, ?_, ?_, ?_⟩ <;>
    simp [hstack, hregistry, Stack.slots, Registry.entries]

theorem keep (hs : s.Attached forgotten) (h : s.KeepsVariables s') : s'.Attached forgotten := by
  constructor
  · rw [h.registry]
    exact hs.registry
  · rw [h.registry]
    exact hs.cells
  · rw [h.registry, h.next]
    exact hs.allocated
  · intro v hv hname
    rw [h.registry]
    exact hs.slots v (h.slots v hv) hname

/-- Pushing a reference to the variable of a name. -/
theorem pushReference (hs : s.Attached forgotten) {name : String} {v : Variable}
    (hv : (name, v) ∈ s.registry.byName) : (s.pushReference v).Attached forgotten := by
  refine ⟨hs.registry, hs.cells, hs.allocated, ?_⟩
  intro w hw hname
  rcases Stack.mem_slots_push.1 hw with hw | hw
  · cases hw
    rwa [hs.registry.keyed name v hv]
  · exact hs.slots w hw hname

/-- A new entry has a name and a cell of its own. -/
theorem create (hs : s.Attached forgotten) {name : String} (h : s.registry.lookup? name = none)
    (value : Value) : (s.create name value).Attached forgotten := by
  constructor
  · exact hs.registry.insert (v := ⟨name, _⟩) h
  · exact nodup_create hs.allocated hs.cells name value
  · exact allocated_create hs.allocated name value
  · intro v hv hforgotten
    have hold := hs.slots v hv hforgotten
    exact Registry.mem_byName_insert.2 (.inr hold)

/-- Entries may go that no slot refers to, or whose name is forgotten with them. -/
theorem shrink (hs : s.Attached forgotten) {registry : Registry} {forgotten' : List String}
    (hsub : registry.byName.Sublist s.registry.byName)
    (h : ∀ v, Slot.variable v ∈ s.stack.slots → v.name ∉ forgotten' →
      v.name ∉ forgotten ∧ ((v.name, v) ∈ s.registry.byName → (v.name, v) ∈ registry.byName)) :
    ({ s with registry } : Machine).Attached forgotten' := by
  have hentries : registry.entries.Sublist s.registry.entries := hsub.map _
  constructor
  · exact hs.registry.of_sublist hsub
  · exact hs.cells.sublist (hentries.map _)
  · intro v hv
    exact hs.allocated v (hentries.subset hv)
  · intro v hv hname
    obtain ⟨hold, hkept⟩ := h v hv hname
    exact hkept (hs.slots v hv hold)

/-- An entry that a slot refers to has two holders at least. -/
theorem not_isLoose {v : Variable} (hv : v ∈ s.registry.entries)
    (hslot : Slot.variable v ∈ s.stack.slots) : s.isLoose v = false := by
  have hreference : v ∈ s.references := List.mem_filterMap.2 ⟨_, hslot, rfl⟩
  have hentries : 0 < s.registry.entries.countP fun w => w.cell == v.cell :=
    List.countP_pos_iff.2 ⟨v, hv, by simp⟩
  have hreferences : 0 < s.references.countP fun w => w.cell == v.cell :=
    List.countP_pos_iff.2 ⟨v, hreference, by simp⟩
  have hcount : s.holderCount v.cell ≠ 1 := by
    rw [holderCount, List.countP_append, List.countP_append]
    omega
  simp [isLoose, hcount]

theorem dropLoose (hs : s.Attached forgotten) : s.dropLoose.Attached forgotten := by
  refine hs.shrink List.filter_sublist fun v hv hname => ⟨hname, fun hentry => ?_⟩
  have hheld : s.isLoose v = false := not_isLoose (Registry.mem_entries.2 ⟨_, hentry⟩) hv
  exact List.mem_filter.2 ⟨hentry, by simp [hheld]⟩

/-- What leaves the registry by its name is forgotten from then on. -/
theorem forget (hs : s.Attached forgotten) (name : String) :
    ({ s with registry := s.registry.erase name } : Machine).Attached (name :: forgotten) := by
  refine hs.shrink List.filter_sublist fun v hv hname => ?_
  rw [List.mem_cons, not_or] at hname
  obtain ⟨hother, hold⟩ := hname
  exact ⟨hold, fun hentry => List.mem_filter.2 ⟨hentry, by simpa using hother⟩⟩

/-- Giving a variable a value. -/
theorem set (hs : s.Attached forgotten) (name : String) (value : Value) :
    (s.set name value).Attached forgotten := by
  unfold Machine.set
  split
  · exact hs.keep (.write ..)
  · next hnone => exact hs.create hnone value

end Attached

end Machine

/-! ## An operator, a token, and a run -/

section

variable {lib : ElementaryFunctions} {mustExist : Bool} {t : Token} {s : Machine}
  {forgotten : List String}

/-- A token keeps references attached, whether it fails or not. -/
theorem Executed.attached {result : EStateM.Result Failure Machine Unit}
    (h : Executed (.standard lib) mustExist t s result) (hs : s.Attached forgotten) :
    (Effect.stateOf result).Attached forgotten := by
  cases h with
  | pushed v => exact hs.keep (.push s v)
  | known v h => exact hs.pushReference (Registry.mem_byName_of_lookup? h)
  | created _ _ h =>
    exact (hs.create h .null).pushReference (Registry.mem_byName_insert.2 (.inl rfl))
  | missing | unopened | unresolved => exact hs
  | opened => exact hs.keep (.openSegment s)
  | closed parent parked _ _ h => exact hs.keep (.closeSegment h _)
  | failed op failure s' _ hop h => exact hs.keep (Outcome.of_run hop h).keepsVariables
  | spoiled op code s' _ hop h => exact hs.keep (Outcome.of_run hop h).keepsVariables
  | applied op s' _ hop h => exact hs.keep (Outcome.of_run hop h).keepsVariables

variable (lib mustExist) in
/-- A text keeps references attached, however it ends. -/
theorem attached_runText (hs : s.Attached forgotten) (capacity : Nat) (text : String) :
    (runText (.standard lib) capacity mustExist text s).machine.Attached forgotten :=
  runText_induction (P := (·.Attached forgotten)) (fun _ _ _ hs h => h.attached hs) hs capacity text

end

/-! ## A session -/

/-- Popping takes a slot away, if there is one. -/
theorem Calculator.keepsVariables_pop (c : Calculator) :
    c.machine.KeepsVariables c.pop.2.machine := by
  cases hactive : c.machine.stack.active with
  | nil =>
    have hpop : c.pop.2 = c := by
      simp only [pop, Machine.pop, Machine.popSlot, Stack.pop, hactive]
      rfl
    rw [hpop]
    exact .refl _
  | cons top rest =>
    have hpop : c.pop.2.machine = c.machine.withActive rest := by
      simp only [pop, Machine.pop, Machine.popSlot, Stack.pop, hactive]
      rfl
    rw [hpop]
    exact .below [top] hactive

/-- The standard operators are in place, and references are attached. -/
def Session.Attached (lib : ElementaryFunctions) (s : Session) : Prop :=
  s.calculator.table = .standard lib ∧ s.calculator.machine.Attached s.forgotten

/-- Every call of the host keeps references attached. -/
theorem Session.attached_call {lib : ElementaryFunctions} {s : Session} (hs : s.Attached lib)
    (call : HostCall) : (s.call call).Attached lib := by
  obtain ⟨htable, hs⟩ := hs
  refine ⟨(s.calculator.table_after call).1.trans htable, ?_⟩
  cases call with
  | evaluate text mustExist =>
    have hrun := (attached_runText lib mustExist hs s.calculator.config.capacity text).dropLoose
    rwa [← htable, ← Calculator.machine_evaluate] at hrun
  | push v => exact hs.keep (.push _ v)
  | pop => exact hs.keep s.calculator.keepsVariables_pop
  | define name v => exact hs.set name v
  | forget name =>
    unfold Session.call Calculator.after Calculator.forgottenAfter
    cases hlookup : s.calculator.machine.registry.lookup? name with
    | none =>
      have hforget : s.calculator.forget name
          = .error (.unplaced (.processing .variableDoesNotExist)) := by
        simp only [Calculator.forget, Machine.forget, hlookup]
      simp only [hforget]
      exact hs
    | some v =>
      have hforget : s.calculator.forget name = .ok { s.calculator with
          machine := { s.calculator.machine with
            registry := s.calculator.machine.registry.erase name } } := by
        simp only [Calculator.forget, Machine.forget, hlookup]
      simp only [hforget]
      exact hs.forget name
  | clear => exact .of_empty rfl rfl

/-- **References stay attached.** Whatever the host does with a new calculator, in any order: an
entry is looked up by the name of its variable, there is one entry for each name, no two entries
share a cell, and a slot of any segment that refers to a variable shares its cell with the entry of
its name, which there is, unless the host has forgotten that name since it last cleared the
calculator. -/
theorem references_attached (capacity : Nat) (lib : ElementaryFunctions) (calls : List HostCall) :
    let session := Session.run ⟨Calculator.new { capacity } lib, []⟩ calls
    let s := session.calculator.machine
    (∀ name v, (name, v) ∈ s.registry.byName → v.name = name ∧ s.registry.lookup? name = some v) ∧
      (s.registry.byName.map Prod.fst).Nodup ∧
      (s.registry.entries.map Variable.cell).Nodup ∧
      ∀ v, Slot.variable v ∈ s.stack.slots → v.name ∉ session.forgotten →
        ∃ w, s.registry.lookup? v.name = some w ∧ v.sharesCell w = true := by
  intro session s
  obtain ⟨-, hs⟩ : session.Attached lib :=
    Session.run_induction (P := Session.Attached lib) (fun _ h hs => Session.attached_call hs h)
      ⟨rfl, .of_empty rfl rfl⟩ calls
  refine ⟨fun name v hv => ?_, hs.registry.nodup_names, hs.cells, fun v hv hname => ?_⟩
  · exact ⟨hs.registry.keyed name v hv, hs.registry.lookup?_eq_some_iff.2 hv⟩
  · have hfound := hs.registry.lookup?_eq_some_iff.2 (hs.slots v hv hname)
    exact ⟨v, hfound, by simp [Variable.sharesCell]⟩

end ReversePolish
