import Mathlib
import ReversePolish.Proofs.Variable.Unshared
/-!
# Pruning is exact

At the end of every text, whatever has ended it, the loose variables leave the registry. Loose is
what holds null and has one holder, and to say what that means takes an account of the holders:
while the cells of the registry are unshared, the holders of an entry are the entry itself and the
slots that refer to its cell, in whichever segment they are (`holderCount_eq`). So the loose
variables are those that hold null and that no slot refers to, and dropping one of them makes none
of the others loose: it does not matter whether they are dropped at once or one after the other, and
doing it again drops nothing.

A text that is too long is refused before it is read, but its end is the end of a text like any
other: it leaves everything as it is, apart from the loose variables that were there before.
-/

namespace ReversePolish

namespace Machine

/-! ## Holders -/

/-- Whether a slot of some segment shares its cell with the variable. -/
def isReferenced (s : Machine) (v : Variable) : Bool := s.references.any (·.sharesCell v)

theorem isReferenced_iff {s : Machine} {v : Variable} :
    s.isReferenced v = true ↔ ∃ w, Slot.variable w ∈ s.stack.slots ∧ w.sharesCell v = true := by
  simp only [isReferenced, references, List.any_eq_true, List.mem_filterMap]
  constructor
  · rintro ⟨w, ⟨slot, hslot, hw⟩, hshares⟩
    cases slot with
    | value => cases hw
    | «variable» u =>
      cases hw
      exact ⟨w, hslot, hshares⟩
  · rintro ⟨w, hslot, hshares⟩
    exact ⟨w, ⟨_, hslot, rfl⟩, hshares⟩

/-- Where no variable is loose, none is dropped. -/
theorem dropLoose_of_looseCount {s : Machine} (h : s.looseCount = 0) : s.dropLoose = s := by
  have hkept : s.registry.filter (fun v => !s.isLoose v) = s.registry := by
    refine congrArg Registry.mk <| List.filter_eq_self.2 fun entry hentry => ?_
    have hloose : ¬s.isLoose entry.2 = true :=
      List.countP_eq_zero.1 h _ (List.mem_map_of_mem hentry)
    simpa using hloose
  rw [dropLoose, hkept]

/-! ## One after the other -/

/-- Forgets a variable if it is loose at the time. -/
def dropIfLoose (s : Machine) (v : Variable) : Machine :=
  if s.isLoose v then { s with registry := s.registry.filter fun w => !(w == v) } else s

/-- Goes through the registry and forgets what is loose, counting the holders that are left. -/
def dropInTurn (s : Machine) : Machine := s.registry.entries.foldl dropIfLoose s

namespace Unshared

variable {s : Machine}

/-- **The holders of an entry** are the entry itself and the slots that refer to its cell. -/
theorem holderCount_eq (hs : s.Unshared) {v : Variable} (hv : v ∈ s.registry.entries) :
    s.holderCount v.cell = 1 + s.references.countP (·.sharesCell v) := by
  have hentry : s.registry.entries.countP (fun w => w.cell == v.cell) = 1 := by
    have hcount := List.count_eq_one_of_mem hs.distinct (List.mem_map_of_mem hv)
    rwa [List.count, List.countP_map] at hcount
  rw [holderCount, hs.unheld, List.map_nil, List.append_nil, List.countP_append, hentry]
  rfl

/-- **An entry is loose** if it holds null and no slot refers to it. -/
theorem isLoose_eq (hs : s.Unshared) {v : Variable} (hv : v ∈ s.registry.entries) :
    s.isLoose v = ((s.cells.read v.cell).isNull && !s.isReferenced v) := by
  have hcount : (s.holderCount v.cell == 1) = !s.isReferenced v := by
    rw [hs.holderCount_eq hv, isReferenced]
    cases href : s.references.any (·.sharesCell v) with
    | false =>
      have hnone : s.references.countP (·.sharesCell v) = 0 := by
        rw [List.countP_eq_zero]
        exact List.any_eq_false.1 href
      rw [hnone]
      rfl
    | true =>
      have hsome : 0 < s.references.countP (·.sharesCell v) :=
        List.countP_pos_iff.2 (List.any_eq_true.1 href)
      rw [Bool.not_true, beq_eq_false_iff_ne]
      omega
  rw [isLoose, hcount]

/-- What stays is what holds a value and what a slot refers to. -/
theorem mem_dropLoose (hs : s.Unshared) {v : Variable} :
    v ∈ s.dropLoose.registry.entries ↔ v ∈ s.registry.entries ∧
      ((s.cells.read v.cell).isNull = true →
        ∃ w, Slot.variable w ∈ s.stack.slots ∧ w.sharesCell v = true) := by
  rw [Machine.dropLoose, Registry.entries_filter, List.mem_filter]
  refine and_congr_right fun hv => ?_
  rw [hs.isLoose_eq hv, ← isReferenced_iff]
  cases (s.cells.read v.cell).isNull <;> simp

/-- **Whether an entry is loose** does not depend on the other entries. -/
theorem isLoose_filter (hs : s.Unshared) (p : Variable → Bool) {v : Variable}
    (hv : v ∈ (s.registry.filter p).entries) :
    ({ s with registry := s.registry.filter p } : Machine).isLoose v = s.isLoose v := by
  have hbefore := hv
  rw [Registry.entries_filter] at hbefore
  rw [(hs.filter p).isLoose_eq hv, hs.isLoose_eq (List.mem_of_mem_filter hbefore)]
  rfl

/-- Where loose variables have been dropped, none is loose. -/
theorem looseCount_dropLoose (hs : s.Unshared) : s.dropLoose.looseCount = 0 := by
  refine List.countP_eq_zero.2 fun v hv => ?_
  have hkept := hv
  rw [Machine.dropLoose, Registry.entries_filter, List.mem_filter] at hkept
  have hloose : s.dropLoose.isLoose v = s.isLoose v := hs.isLoose_filter _ hv
  rw [hloose]
  simpa using hkept.2

/-- What is left after some variables had their turn. -/
theorem foldl_dropIfLoose (hs : s.Unshared) (turns : List Variable) :
    turns.foldl dropIfLoose s
      = { s with registry := s.registry.filter fun v => !(decide (v ∈ turns) && s.isLoose v) } := by
  induction turns generalizing s with
  | nil => simp [Registry.filter]
  | cons v turns ih =>
    rw [List.foldl_cons, dropIfLoose]
    split
    · next hloose =>
      have hrest : (s.registry.filter fun w => !(w == v)).filter
            (fun w => !(decide (w ∈ turns) && s.isLoose w))
          = s.registry.filter fun w => !(decide (w ∈ v :: turns) && s.isLoose w) := by
        rw [Registry.filter_filter]
        refine Registry.filter_congr fun w hw => ?_
        by_cases hwv : w = v <;> simp [hwv, hloose]
      -- the turns that are left see a registry without `v`, and look at its entries as before
      rw [ih (hs.filter _), ← hrest]
      congr 1
      refine Registry.filter_congr fun w hw => ?_
      rw [hs.isLoose_filter _ hw]
    · next hloose =>
      rw [ih hs]
      congr 1
      refine Registry.filter_congr fun w hw => ?_
      by_cases hwv : w = v <;> simp [hwv, hloose]

/-- **Dropping the loose variables one after the other** comes to dropping them at once. -/
theorem dropInTurn_eq (hs : s.Unshared) : s.dropInTurn = s.dropLoose := by
  rw [dropInTurn, hs.foldl_dropIfLoose, Machine.dropLoose]
  congr 1
  refine Registry.filter_congr fun v hv => ?_
  simp [hv]

end Unshared

end Machine

/-! ## The end of a text -/

/-- **Pruning is exact, whatever has ended the text.** Of the entries that were there when the run
stopped, those are gone that hold null and that no slot of any segment refers to, and no others. All
that holds a value is still found under its name, with the same cell and the same value; slots and
cells are as the run has left them. Nothing is left to prune, and it would have made no difference
to drop the loose variables one after the other. -/
theorem evaluate_prunes {c : Calculator} (htable : c.table.KeepsUnshared)
    (hs : c.machine.Unshared) (text : String) (mustExist : Bool) :
    let stopped := (runText c.table c.config.capacity mustExist text c.machine).machine
    let s := (c.evaluate text mustExist).2.machine
    (∀ v ∈ s.registry.entries, (s.cells.read v.cell).isNull = true →
      ∃ w, Slot.variable w ∈ s.stack.slots ∧ w.sharesCell v = true) ∧
    (∀ name v, stopped.registry.lookup? name = some v →
      (stopped.cells.read v.cell).isNull = false →
      s.registry.lookup? name = some v ∧ s.cells.read v.cell = stopped.cells.read v.cell) ∧
    s.stack = stopped.stack ∧ s.cells = stopped.cells ∧
    s.registry.byName.Sublist stopped.registry.byName ∧
    (∀ v ∈ stopped.registry.entries, v ∉ s.registry.entries ↔
      (stopped.cells.read v.cell).isNull = true ∧
        ∀ w, Slot.variable w ∈ stopped.stack.slots → w.sharesCell v = false) ∧
    s = stopped.dropInTurn ∧ s.looseCount = 0 ∧ s.dropLoose = s := by
  intro stopped s
  have hstopped : stopped.Unshared := unshared_runText htable hs _ _ text
  have hnone : s.looseCount = 0 := hstopped.looseCount_dropLoose
  refine ⟨fun v hv => (hstopped.mem_dropLoose.1 hv).2, fun name v hlookup hvalue => ?_, rfl, rfl,
    List.filter_sublist, fun v hv => ?_, hstopped.dropInTurn_eq.symm, hnone,
    Machine.dropLoose_of_looseCount hnone⟩
  · have hentry : v ∈ stopped.registry.entries := Registry.mem_of_lookup? hlookup
    have hkept : (!stopped.isLoose v) = true := by simp [hstopped.isLoose_eq hentry, hvalue]
    exact ⟨Registry.lookup?_filter hlookup hkept, rfl⟩
  · have hmem := hstopped.mem_dropLoose (v := v)
    simp only [hv, true_and] at hmem
    rw [show s = stopped.dropLoose from rfl, hmem]
    simp

/-- A host operator creates a variable and pushes a reference to it. Then the text fails, after one
of its own variables has been given a value and the other one has lost its only reference. -/
theorem evaluate_prunes_after_failure :
    let c := (Calculator.new {}).register ⟨"new", 0, HostOperator.createVariable.body⟩
    let text := "7i &x = new &b drop ?"
    let stopped := (runText c.table c.config.capacity false text c.machine).machine
    let result := c.evaluate text false
    c.table.KeepsUnshared ∧ c.machine.Unshared ∧
      result.1.failure = some (.atOffset (.processing .unknownOperator) 20) ∧
      stopped.registry.entries = [⟨"b", 2⟩, ⟨"tmp", 1⟩, ⟨"x", 0⟩] ∧
      result.2.machine = stopped.dropInTurn ∧
      result.2.machine.registry.entries = [⟨"tmp", 1⟩, ⟨"x", 0⟩] := by
  intro c text stopped result
  have hbody := HostOperator.keepsUnshared_body .createVariable
  have htable : c.table.KeepsUnshared := (Calculator.keepsUnshared_new {} .standard).register hbody
  have hs : c.machine.Unshared := .of_new rfl rfl
  have hfits : Lexer.ofText text c.config.capacity = .ok ⟨⟨0, text.toList⟩, false⟩ :=
    if_neg (by decide)
  have hdrain : Lexer.drain ⟨⟨0, text.toList⟩, false⟩ =
      ⟨[⟨.number (.integer 7), "7i", 0⟩, ⟨.reference, "x", 3⟩, ⟨.word, "=", 6⟩,
        ⟨.word, "new", 8⟩, ⟨.reference, "b", 12⟩, ⟨.word, "drop", 15⟩, ⟨.word, "?", 20⟩], none,
        ⟨⟨21, []⟩, true⟩⟩ := by cbv
  obtain ⟨-, -, -, -, -, -, hturns, -, -⟩ := evaluate_prunes htable hs text false
  refine ⟨htable, hs, ?_, ?_, hturns, ?_⟩
  · simp only [result, Calculator.evaluate, runText, hfits, hdrain, c]
    rfl
  · simp only [stopped, runText, hfits, hdrain, c]
    rfl
  · simp only [result, Calculator.evaluate, runText, hfits, hdrain, c]
    rfl

/-! ## A text that is too long -/

/-- **A text that is too long** is refused, and no token of it is executed. All segments, the
contents of the cells, the operators and the configuration stay as they are, and so do the entries
of the registry, apart from those that held null and that no slot referred to before the call. -/
theorem evaluate_oversize {c₀ : Calculator} (hnew : c₀.machine = {})
    (htable : c₀.table.KeepsUnshared) (calls : List HostCall) {text : String}
    (hlong : c₀.config.capacity < text.utf8ByteSize) (mustExist : Bool) :
    let c := (Session.run ⟨c₀, []⟩ calls).calculator
    let overflow := Diagnostic.atOffset (.processing .inputBufferOverflow) c₀.config.capacity
    let result := c.evaluate text mustExist
    result.1.failure = some overflow ∧ result.1.trace = [] ∧
      result.2 = { c with
        machine := { c.machine with registry := c.machine.registry.filter fun v =>
          !((c.machine.cells.read v.cell).isNull && !c.machine.isReferenced v) }
        failure := some overflow } := by
  intro c overflow result
  have hstart : c₀.machine.Unshared := .of_new (by rw [hnew]) (by rw [hnew])
  obtain ⟨-, hconfig, hs⟩ := Session.unshared_run htable hstart calls
  have hrefused : Lexer.ofText text c.config.capacity = .error overflow := by
    rw [hconfig]
    exact if_pos hlong
  have hdropped : c.machine.dropLoose = { c.machine with
      registry := c.machine.registry.filter fun v =>
        !((c.machine.cells.read v.cell).isNull && !c.machine.isReferenced v) } := by
    rw [Machine.dropLoose]
    congr 1
    exact Registry.filter_congr fun v hv => by rw [hs.isLoose_eq hv]
  simp only [result, Calculator.evaluate, runText, hrefused, hdropped]
  exact ⟨trivial, trivial, trivial⟩

/-- Two variables hold null, and a slot refers to one of them. -/
theorem evaluate_oversize_keeps_reference :
    let c₀ := Calculator.new { capacity := 2 }
    let calls := [.evaluate "&r" false, .define "x" .null, .define "y" (.boolean true)]
    let c := (Session.run ⟨c₀, []⟩ calls).calculator
    c₀.machine = {} ∧ c₀.table.KeepsUnshared ∧ c₀.config.capacity < "1 2".utf8ByteSize ∧
      c.machine.registry.entries = [⟨"r", 0⟩, ⟨"x", 1⟩, ⟨"y", 2⟩] ∧
      (c.evaluate "1 2" false).2 = { c with
        machine := { c.machine with registry := ⟨[("r", ⟨"r", 0⟩), ("y", ⟨"y", 2⟩)]⟩ },
        failure := some (.atOffset (.processing .inputBufferOverflow) 2) } := by
  intro c₀ calls c
  have htable := Calculator.keepsUnshared_new { capacity := 2 } .standard
  have hlong : c₀.config.capacity < "1 2".utf8ByteSize := by decide
  have hfits : Lexer.ofText "&r" 2 = .ok ⟨⟨0, "&r".toList⟩, false⟩ := if_neg (by decide)
  have hdrain : Lexer.drain ⟨⟨0, "&r".toList⟩, false⟩ =
      ⟨[⟨.reference, "r", 0⟩], none, ⟨⟨2, []⟩, true⟩⟩ := by cbv
  have hreached : c.machine = ⟨⟨[.variable ⟨"r", 0⟩], []⟩,
      ⟨[("r", ⟨"r", 0⟩), ("x", ⟨"x", 1⟩), ("y", ⟨"y", 2⟩)]⟩,
      ⟨#[.null, .null, .boolean true]⟩, []⟩ := by
    simp only [c, c₀, calls, Session.run, List.foldl, Session.call, Calculator.after,
      Calculator.evaluate, Calculator.new, runText, hfits, hdrain]
    rfl
  have hkept := (evaluate_oversize rfl htable calls hlong false).2.2
  refine ⟨rfl, htable, hlong, by rw [hreached]; rfl, hkept.trans ?_⟩
  rw [hreached]
  rfl

/-- A variable that the host has given null does not outlive a text that is too long. -/
theorem evaluate_oversize_drops_null :
    let c := (Session.run ⟨Calculator.new { capacity := 2 }, []⟩ [.define "x" .null]).calculator
    let result := c.evaluate "1 2" false
    c.config.capacity < "1 2".utf8ByteSize ∧
      c.machine.registry.entries = [⟨"x", 0⟩] ∧
      result.1.failure = some (.atOffset (.processing .inputBufferOverflow) 2) ∧
      result.2.machine.registry.entries = [] := by
  intro c result
  have hlong : 2 < "1 2".utf8ByteSize := by decide
  have hrefused : Lexer.ofText "1 2" c.config.capacity
      = .error (.atOffset (.processing .inputBufferOverflow) 2) := if_pos hlong
  refine ⟨hlong, rfl, ?_, ?_⟩
  · simp only [result, Calculator.evaluate, runText, hrefused]
  · simp only [result, Calculator.evaluate, runText, hrefused]
    rfl

end ReversePolish
