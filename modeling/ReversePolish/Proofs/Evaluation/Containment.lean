import Mathlib
import ReversePolish.Proofs.Evaluation.Executed
import ReversePolish.Proofs.Operator.Outcome
/-!
# Error values are contained

An error value is a value like any other, but only an operator can make one, and it makes it on top
of the stack, where it is looked for before the next token is executed. So in a state without error
values a text comes to its end without any, or it fails and has left none but the one on top that it
has failed for.

`Machine.Clean` says that there are no error values within reach, and `Machine.Tainted` that there
is exactly the one on top. An operator takes a clean state to a clean or a tainted one, a token
takes it to a clean one or fails, and so does a run.
-/

namespace ReversePolish

namespace Machine

/-- No slot of any segment shows an error value, and no variable of the registry holds one. -/
structure Clean (s : Machine) : Prop where
  slots : ∀ slot ∈ s.stack.slots, (s.see slot).isError = false
  registry : ∀ v ∈ s.registry.entries, (s.cells.read v.cell).isError = false

/-- The top slot is the error value `code` itself, and but for it the state is clean. -/
def Tainted (s : Machine) (code : ValueError) : Prop :=
  ∃ rest, s.stack.active = .value (.error code) :: rest ∧ (s.withActive rest).Clean

/-- A machine that has not been used yet is clean. -/
theorem clean_empty : ({} : Machine).Clean := by
  refine ⟨fun slot hslot => ?_, fun v hv => ?_⟩
  · simp [Stack.slots] at hslot
  · cases hv

namespace Clean

variable {s : Machine}

theorem active (hs : s.Clean) {slot : Slot} (h : slot ∈ s.stack.active) :
    (s.see slot).isError = false :=
  hs.slots slot (Stack.mem_slots.2 (.inl h))

/-- A clean state shows no error value, `notAnError` included. -/
theorem not_showsNotAnError (hs : s.Clean) {group rest : List Slot}
    (hactive : s.stack.active = group ++ rest) : ¬s.ShowsNotAnError group := by
  rintro ⟨slot, hslot, hsee⟩
  have hmem : slot ∈ s.stack.active := by rw [hactive]; exact List.mem_append_left _ hslot
  have hclean := hs.active hmem
  rw [hsee] at hclean
  cases hclean

/-! ### What keeps a state clean -/

theorem withActive (hs : s.Clean) {slots : List Slot}
    (h : ∀ slot ∈ slots, slot ∈ s.stack.active ∨ (s.see slot).isError = false) :
    (s.withActive slots).Clean := by
  refine ⟨fun slot hslot => ?_, hs.registry⟩
  rcases Stack.mem_slots.1 hslot with hslot | hparked
  · rcases h slot hslot with hold | hnew
    · exact hs.active hold
    · exact hnew
  · exact hs.slots slot (Stack.mem_slots.2 (.inr hparked))

/-- Removing the top slots. -/
theorem below (hs : s.Clean) (group : List Slot) {rest : List Slot}
    (hactive : s.stack.active = group ++ rest) : (s.withActive rest).Clean := by
  apply hs.withActive
  intro slot hslot
  left
  rw [hactive]
  exact List.mem_append_right _ hslot

/-- A slot that shows no error value. -/
theorem pushSlot (hs : s.Clean) {new : Slot} (hnew : (s.see new).isError = false) :
    (s.pushSlot new).Clean := by
  refine ⟨fun slot hslot => ?_, hs.registry⟩
  rcases Stack.mem_slots_push.1 hslot with rfl | hslot
  · exact hnew
  · exact hs.slots slot hslot

theorem push (hs : s.Clean) {v : Value} (hv : v.isError = false) : (s.push v).Clean :=
  hs.pushSlot hv

theorem pushReference (hs : s.Clean) {v : Variable} (hv : v ∈ s.registry.entries) :
    (s.pushReference v).Clean :=
  hs.pushSlot (hs.registry v hv)

/-- Other cells, each of which holds what it held or no error. -/
theorem withCells (hs : s.Clean) {cells : Cells}
    (h : ∀ c, cells.read c = s.cells.read c ∨ (cells.read c).isError = false) :
    ({ s with cells } : Machine).Clean := by
  have hread : ∀ c, (s.cells.read c).isError = false → (cells.read c).isError = false := by
    intro c hc
    rcases h c with hold | hnew
    · rwa [hold]
    · exact hnew
  constructor
  · intro slot hslot
    have hold := hs.slots slot hslot
    rcases slot with v | v
    · exact hold
    · exact hread v.cell hold
  · intro v hv
    exact hread v.cell (hs.registry v hv)

theorem write (hs : s.Clean) (v : Variable) {value : Value} (hvalue : value.isError = false) :
    (s.write v value).Clean := by
  apply hs.withCells
  intro c
  rw [Cells.read_write]
  split
  · exact .inr hvalue
  · exact .inl rfl

theorem create (hs : s.Clean) (name : String) : (s.create name .null).Clean := by
  have hcells : ({ s with cells := s.cells.alloc .null } : Machine).Clean := by
    apply hs.withCells
    intro c
    rw [Cells.read_alloc]
    split
    · exact .inr rfl
    · exact .inl rfl
  refine ⟨hcells.slots, ?_⟩
  intro v hv
  rcases Registry.mem_insert.1 hv with rfl | hv
  · show ((s.cells.alloc .null).read s.cells.next).isError = false
    rw [Cells.read_alloc, if_pos rfl]
    rfl
  · exact hcells.registry v hv

theorem filter (hs : s.Clean) (p : Variable → Bool) :
    ({ s with registry := s.registry.filter p } : Machine).Clean := by
  refine ⟨hs.slots, ?_⟩
  intro v hv
  rw [Registry.entries_filter] at hv
  exact hs.registry v (List.mem_filter.1 hv).1

theorem openSegment (hs : s.Clean) :
    ({ s with stack := s.stack.openSegment } : Machine).Clean := by
  refine ⟨?_, hs.registry⟩
  intro slot hslot
  have hold : slot ∈ s.stack.slots := by rwa [Stack.slots_openSegment] at hslot
  exact hs.slots slot hold

theorem closeSegment (hs : s.Clean) {parent : List Slot} {parked : List (List Slot)} {v : Value}
    (h : s.stack.parked = parent :: parked) (hv : v.isError = false) :
    ({ s with stack := ⟨.value v :: s.stack.active ++ parent, parked⟩ } : Machine).Clean := by
  refine ⟨?_, hs.registry⟩
  intro slot hslot
  rcases (Stack.mem_slots_close h).1 hslot with rfl | hslot
  · exact hv
  · exact hs.slots slot hslot

end Clean

/-- Forgetting variables of the registry changes nothing on the stack. -/
theorem Tainted.filter {s : Machine} {code : ValueError} (hs : s.Tainted code)
    (p : Variable → Bool) :
    ({ s with registry := s.registry.filter p } : Machine).Tainted code := by
  obtain ⟨rest, hactive, hrest⟩ := hs
  exact ⟨rest, hactive, hrest.filter p⟩

/-- The error value on top is within sight of `failOnErrorValue`. -/
theorem Tainted.topError {s : Machine} {code : ValueError} (hs : s.Tainted code) :
    s.stack.TopError code := by
  obtain ⟨rest, hactive, -⟩ := hs
  rw [Stack.TopError, hactive]
  rfl

theorem Clean.not_topError {s : Machine} (hs : s.Clean) (code : ValueError) :
    ¬s.stack.TopError code := by
  intro htop
  have := hs.active (List.mem_of_head? htop)
  cases this

end Machine

/-! ## An operator -/

/-- The two codes that no text fails with when it starts in a clean state. -/
def Failure.IsOrdinary (failure : Failure) : Prop :=
  failure ≠ .processing .tokenNotHandled ∧ failure ≠ .value .notAnError

namespace Outcome

variable {op : Operator} {s s' : Machine} {failure : Failure}

/-- An error value can only be on top, and `notAnError` is none that is new. -/
theorem clean_or_tainted (h : Outcome op s (.ok () s')) (hs : s.Clean) :
    s'.Clean ∨ ∃ code, code ≠ .notAnError ∧ s'.Tainted code := by
  cases h with
  | computed group rest v hactive hlength hcode =>
    have hrest := hs.below group hactive
    cases v with
    | error code =>
      refine .inr ⟨code, fun hnot => ?_, rest, rfl, hrest⟩
      exact hs.not_showsNotAnError hactive (hcode (by rw [hnot]))
    | _ => exact .inl (hrest.push rfl)
  | moved group kept rest hactive hlength hkept =>
    left
    apply hs.withActive
    intro slot hslot
    exact .inl (Machine.mem_active_of_kept hactive hkept hslot)
  | assigned target source rest hname hactive =>
    have hrest : (s.withActive rest).Clean := hs.below [_, _] hactive
    have hsource : (s.see source).isError = false := hs.active (by rw [hactive]; simp)
    exact .inl (hrest.write target hsource)

theorem clean_of_error (h : Outcome op s (.error failure s')) (hs : s.Clean) :
    s'.Clean ∧ failure.IsOrdinary := by
  cases h with
  | short => exact ⟨hs, by simp, by simp⟩
  | refused _ _ _ _ htext hcode =>
    refine ⟨hs, htext _, fun h => ?_⟩
    exact hs.not_showsNotAnError (List.append_nil _).symm (hcode h)
  | stopped top rest hname hactive =>
    exact ⟨hs.below [top] hactive, by simp, by simp⟩

end Outcome

/-! ## A token, and a run -/

/-- What a failure leaves: a clean state, or the error value on top whose failure it is. -/
def Machine.LeftBy (s : Machine) (failure : Failure) : Prop :=
  (s.Clean ∨ ∃ code, failure = .value code ∧ s.Tainted code) ∧ failure.IsOrdinary

namespace Executed

variable {lib : ElementaryFunctions} {mustExist : Bool} {t : Token} {s s' : Machine}
  {failure : Failure}

theorem clean (h : Executed (.standard lib) mustExist t s (.ok () s')) (hs : s.Clean) :
    s'.Clean := by
  cases h with
  | pushed v hkind hv => exact hs.push hv
  | known v h => exact hs.pushReference (Registry.mem_of_lookup? h)
  | created => exact (hs.create t.text).pushReference (Registry.mem_insert.2 (.inl rfl))
  | opened => exact hs.openSegment
  | closed parent parked hkind htext h => exact hs.closeSegment h rfl
  | applied op _ hkind hoperator h htop =>
    rcases (Outcome.of_run hoperator h).clean_or_tainted hs with hclean | ⟨code, -, htainted⟩
    · exact hclean
    · exact absurd htainted.topError (htop code)

theorem leftBy (h : Executed (.standard lib) mustExist t s (.error failure s')) (hs : s.Clean) :
    s'.LeftBy failure := by
  cases h with
  | missing => exact ⟨.inl hs, by simp, by simp⟩
  | unopened => exact ⟨.inl hs, by simp, by simp⟩
  | unresolved code _ _ _ hcode => rcases hcode with rfl | rfl <;> exact ⟨.inl hs, by simp, by simp⟩
  | failed op _ _ hkind hoperator h =>
    obtain ⟨hclean, hordinary⟩ := (Outcome.of_run hoperator h).clean_of_error hs
    exact ⟨.inl hclean, hordinary⟩
  | spoiled op code _ hkind hoperator h htop =>
    rcases (Outcome.of_run hoperator h).clean_or_tainted hs with hclean | ⟨code', hne, htainted⟩
    · exact absurd htop (hclean.not_topError code)
    · -- the error value on top is the one that was found there
      have hcode : code' = code := by simpa [Stack.TopError] using htainted.topError.symm.trans htop
      subst hcode
      exact ⟨.inr ⟨code', rfl, htainted⟩, by simp, by simpa using hne⟩

end Executed

section

variable {lib : ElementaryFunctions} {mustExist : Bool} {s : Machine}

theorem Diagnostic.IsRefusal.isOrdinary {d : Diagnostic} (h : d.IsRefusal) :
    d.failure.IsOrdinary := by
  obtain ⟨code, position, rfl, rfl | rfl | rfl⟩ := h <;>
    exact ⟨by simp [atOffset], by simp [atOffset]⟩

variable (lib mustExist) in
theorem leaves_clean_runText (hs : s.Clean) (capacity : Nat) (text : String) :
    Leaves Machine.Clean Machine.LeftBy (runText (.standard lib) capacity mustExist text s).machine
      (runText (.standard lib) capacity mustExist text s).failure := by
  refine leaves_runText _ _ ?_ ?_ ?_ hs capacity text
  · intro t s s' hs h
    exact (Executed.of_run h).clean hs
  · intro t s failure s' hs h
    exact (Executed.of_run h).leftBy hs
  · intro s d hs hd
    exact ⟨.inl hs, hd.isOrdinary⟩

/-- Dropping loose variables brings no error value into reach. -/
theorem Leaves.dropLoose {failure : Option Diagnostic}
    (h : Leaves Machine.Clean Machine.LeftBy s failure) :
    Leaves Machine.Clean Machine.LeftBy s.dropLoose failure := by
  cases failure with
  | none => exact h.filter _
  | some d =>
    obtain ⟨hclean | ⟨code, hcode, htainted⟩, hordinary⟩ := h
    · exact ⟨.inl (hclean.filter _), hordinary⟩
    · exact ⟨.inr ⟨code, hcode, htainted.filter _⟩, hordinary⟩

/-- **Error values are contained.** In a state without any, a text that comes to its end leaves
none, and a text that fails leaves none but the one on top of the stack that it has failed for. It
never fails because a token is not handled, nor because a value is no error. -/
theorem evaluate_contained {c : Calculator} (htable : c.table = .standard lib)
    (hclean : c.machine.Clean) (text : String) (mustExist : Bool) :
    ((c.evaluate text mustExist).1.failure = none → (c.evaluate text mustExist).2.machine.Clean) ∧
      ∀ d, (c.evaluate text mustExist).1.failure = some d →
        ((c.evaluate text mustExist).2.machine.Clean ∨
          ∃ code, d.failure = .value code ∧ (c.evaluate text mustExist).2.machine.Tainted code) ∧
        d.failure ≠ .processing .tokenNotHandled ∧ d.failure ≠ .value .notAnError := by
  have hrun := (leaves_clean_runText lib mustExist hclean c.config.capacity text).dropLoose
  rw [← htable, ← c.failure_evaluate, ← c.machine_evaluate] at hrun
  refine ⟨fun hnone => ?_, fun d hsome => ?_⟩
  · rwa [hnone] at hrun
  · rwa [hsome] at hrun

end

/-- Dividing null fails, and leaves the error value behind. -/
theorem evaluate_contained_null :
    (Calculator.new {}).machine.Clean ∧
      ((Calculator.new {}).evaluate "&x 1i /" false).1.failure
        = some (.atOffset (.value .isNull) 6) ∧
      (((Calculator.new {}).evaluate "&x 1i /" false).2.machine.Clean ∨
        ∃ code, Failure.value .isNull = .value code ∧
          ((Calculator.new {}).evaluate "&x 1i /" false).2.machine.Tainted code) := by
  have hclean : (Calculator.new {}).machine.Clean := Machine.clean_empty
  have hlexer : Lexer.ofText "&x 1i /" 256 = .ok ⟨⟨0, "&x 1i /".toList⟩, false⟩ :=
    if_neg (by decide)
  have hdrain : Lexer.drain ⟨⟨0, "&x 1i /".toList⟩, false⟩ =
      ⟨[⟨.reference, "x", 0⟩, ⟨.number (.integer 1), "1i", 3⟩, ⟨.word, "/", 6⟩], none,
        ⟨⟨7, []⟩, true⟩⟩ := by cbv
  have hfails : ((Calculator.new {}).evaluate "&x 1i /" false).1.failure
      = some (.atOffset (.value .isNull) 6) := by
    simp only [Calculator.evaluate, Calculator.new, runText, hlexer, hdrain]
    rfl
  exact ⟨hclean, hfails, ((evaluate_contained rfl hclean "&x 1i /" false).2 _ hfails).1⟩

end ReversePolish
