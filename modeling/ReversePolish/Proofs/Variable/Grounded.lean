import ReversePolish.Proofs.Variable.Aliasing
/-!
# Cells that were handed out

Writing to a cell that was never handed out has no effect, and a new cell may turn out to be one
that somebody refers to already, unless nobody refers to what was never handed out. This is
`Machine.Grounded`, and no state that can be reached lacks it: references are made to the entries
of the registry and copied from slot to slot, and an entry is made with a cell that is handed out
then and there.

In a grounded state a new variable shares its cell with no slot and no entry, and giving it a value
is seen by nobody but its own entry.
-/

namespace ReversePolish

namespace Machine

/-- The cells of the registry, and those that slots of any segment refer to, were handed out. -/
structure Grounded (s : Machine) : Prop where
  entries : ∀ v ∈ s.registry.entries, v.cell < s.cells.next
  slots : ∀ v, Slot.variable v ∈ s.stack.slots → v.cell < s.cells.next

namespace Grounded

variable {s s' : Machine}

theorem of_empty (hstack : s.stack = {}) (hregistry : s.registry = {}) : s.Grounded := by
  constructor <;> simp [hstack, hregistry, Stack.slots, Registry.entries]

theorem keep (hs : s.Grounded) (h : s.KeepsVariables s') : s'.Grounded := by
  constructor
  · rw [h.registry, h.next]
    exact hs.entries
  · intro v hv
    rw [h.next]
    exact hs.slots v (h.slots v hv)

theorem pushReference (hs : s.Grounded) {v : Variable} (hv : v.cell < s.cells.next) :
    (s.pushReference v).Grounded := by
  refine ⟨hs.entries, fun w hw => ?_⟩
  rcases Stack.mem_slots_push.1 hw with hw | hw
  · cases hw
    exact hv
  · exact hs.slots w hw

theorem create (hs : s.Grounded) (name : String) (value : Value) :
    (s.create name value).Grounded := by
  refine ⟨allocated_create hs.entries name value, fun v hv => ?_⟩
  show v.cell < (s.cells.alloc value).next
  rw [Cells.next_alloc]
  exact Nat.lt_succ_of_lt (hs.slots v hv)

theorem set (hs : s.Grounded) (name : String) (value : Value) : (s.set name value).Grounded := by
  unfold Machine.set
  split
  · exact hs.keep (.write ..)
  · exact hs.create name value

/-- Entries may go. -/
theorem shrink (hs : s.Grounded) {registry : Registry}
    (hsub : registry.byName.Sublist s.registry.byName) :
    ({ s with registry } : Machine).Grounded :=
  ⟨fun v hv => hs.entries v ((hsub.map Prod.snd).subset hv), hs.slots⟩

theorem dropLoose (hs : s.Grounded) : s.dropLoose.Grounded := hs.shrink List.filter_sublist

/-! ### What a new cell and a write are seen by -/

/-- A new cell is nobody's, so all that refers to a cell shows what it showed. -/
theorem read_alloc (hs : s.Grounded) (value : Value) :
    (∀ v ∈ s.registry.entries, (s.cells.alloc value).read v.cell = s.cells.read v.cell) ∧
      ∀ slot ∈ s.stack.slots, slot.read (s.cells.alloc value) = s.see slot := by
  have hold : ∀ v : Variable, v.cell < s.cells.next →
      (s.cells.alloc value).read v.cell = s.cells.read v.cell := by
    intro v hv
    rw [Cells.read_alloc, if_neg (Nat.ne_of_lt hv)]
  refine ⟨fun v hv => hold v (hs.entries v hv), fun slot hslot => ?_⟩
  rcases slot with v | v
  · rfl
  · exact hold v (hs.slots v hslot)

/-- A write to an entry is seen through all that shares its cell, and through nothing else. -/
theorem read_write (hs : s.Grounded) {w : Variable} (hw : w ∈ s.registry.entries) (value : Value) :
    (∀ v : Variable, (s.write w value).cells.read v.cell
        = if v.sharesCell w then value else s.cells.read v.cell) ∧
      ∀ slot : Slot, (s.write w value).see slot
        = if slot.equal (.variable w) then value else s.see slot := by
  have hread : ∀ v : Variable, (s.write w value).cells.read v.cell
      = if v.sharesCell w then value else s.cells.read v.cell := by
    intro v
    have hcell := hs.entries w hw
    rw [write, Cells.read_write]
    by_cases h : w.cell = v.cell
    · rw [if_pos ⟨h, hcell⟩, if_pos (by simp [Variable.sharesCell, h])]
    · rw [if_neg fun hboth => h hboth.1, if_neg (by simpa [Variable.sharesCell] using Ne.symm h)]
  refine ⟨hread, fun slot => ?_⟩
  rcases slot with v | v
  · rfl
  · exact hread v

end Grounded

end Machine

/-! ## A token, a text, and a session -/

/-- No operator of the table makes references to what was not handed out. -/
def OperatorTable.KeepsGrounded (table : OperatorTable) : Prop :=
  ∀ op ∈ table.operators, ∀ s : Machine, s.Grounded →
    (Effect.stateOf (op.apply.run s)).Grounded

theorem Calculator.keepsGrounded_new (config : Config) (lib : ElementaryFunctions) :
    (Calculator.new config lib).table.KeepsGrounded :=
  fun _ hop s hs => hs.keep (Outcome.of_mem_new hop s).keepsVariables

section

variable {table : OperatorTable} (htable : table.KeepsGrounded)
include htable

theorem Executed.grounded {mustExist : Bool} {t : Token} {s : Machine}
    {result : EStateM.Result Failure Machine Unit} (h : Executed table mustExist t s result)
    (hs : s.Grounded) : (Effect.stateOf result).Grounded := by
  have hoperator : ∀ op, table.find? t.text = some op →
      (Effect.stateOf (op.apply.run s)).Grounded :=
    fun op hop => htable op (List.mem_of_find?_eq_some hop) s hs
  cases h with
  | pushed v => exact hs.keep (.push s v)
  | known v h => exact hs.pushReference (hs.entries v (Registry.mem_of_lookup? h))
  | created =>
    refine (hs.create t.text .null).pushReference ?_
    show s.cells.next < (s.cells.alloc .null).next
    rw [Cells.next_alloc]
    exact Nat.lt_succ_self _
  | missing | unopened | unresolved => exact hs
  | opened => exact hs.keep (.openSegment s)
  | closed parent parked _ _ h => exact hs.keep (.closeSegment h _)
  | failed op _ s' _ hop h | spoiled op _ s' _ hop h | applied op s' _ hop h =>
    have hs' := hoperator op hop
    rwa [h] at hs'

theorem grounded_runText {s : Machine} (hs : s.Grounded) (capacity : Nat) (mustExist : Bool)
    (text : String) : (runText table capacity mustExist text s).machine.Grounded :=
  runText_induction (P := Machine.Grounded) (fun _ _ _ hs h => h.grounded htable hs) hs capacity
    text

end

/-- Every call of the host. -/
theorem Calculator.grounded_after {c : Calculator} (htable : c.table.KeepsGrounded)
    (hs : c.machine.Grounded) (call : HostCall) : (c.after call).machine.Grounded := by
  cases call with
  | evaluate text mustExist => exact (grounded_runText htable hs _ _ text).dropLoose
  | push v => exact hs.keep (.push _ v)
  | pop => exact hs.keep c.keepsVariables_pop
  | define name v => exact hs.set name v
  | forget name =>
    simp only [after, Calculator.forget, Machine.forget]
    cases c.machine.registry.lookup? name with
    | none => exact hs
    | some v => exact hs.shrink List.filter_sublist
  | clear => exact .of_empty rfl rfl

/-- **Whatever a host does with a new calculator,** nothing refers to a cell that was not handed
out. -/
theorem Session.grounded_run {c : Calculator} (htable : c.table.KeepsGrounded)
    (hs : c.machine.Grounded) (calls : List HostCall) :
    (Session.run ⟨c, []⟩ calls).calculator.machine.Grounded := by
  have hrun := Session.run_induction
    (P := fun s => s.calculator.table = c.table ∧ s.calculator.machine.Grounded)
    (fun s call h => ?_) (s := ⟨c, []⟩) ⟨rfl, hs⟩ calls
  · exact hrun.2
  · obtain ⟨heq, hs⟩ := h
    have hkeeps : s.calculator.table.KeepsGrounded := heq ▸ htable
    exact ⟨(s.calculator.table_after call).1.trans heq, Calculator.grounded_after hkeeps hs call⟩

end ReversePolish
