import ReversePolish.Proofs.Evaluation.Append
import ReversePolish.Proofs.Variable.Grounded
/-!
# Assigning by text and by host

A value comes into a variable in two ways. The host may give it one directly (`Machine.set`), or it
pushes the value and evaluates `&name =`. The second way is longer: the reference creates the
variable with null if it is not known, `=` takes the reference off the stack again, and the value
goes through it to the cell. It ends in the same machine nevertheless (`runText_assignment`), and
so in the same machine once the loose variables are dropped.

So it is enough to say once what is seen of it. A value that is given to a known variable is seen
through everything that shares its cell, and a variable that is created shares its cell with nobody.
-/

namespace ReversePolish

/-! ## The text -/

namespace Lexer

/-- The tokens of a reference are the reference. -/
theorem drain_reference {name : String} (hname : name ≠ "")
    (hblank : ∀ ch ∈ name.toList, Text.isBlank ch = false) :
    (start ("&" ++ name)).drain.tokens = [⟨.reference, name, 0⟩] ∧
      (start ("&" ++ name)).drain.failure = none := by
  have hsome : name.toList.isEmpty = false := by
    simpa using hname
  apply drain_of_lexFrom
  rw [String.toList_append]
  show Plain.lexFrom 0 ('&' :: name.toList) = _
  rw [Plain.lexFrom_run (by decide) (by decide), readRun_eq_self hblank]
  simp [Plain.classify, Plain.reference, hsome, Plain.followedBy, Plain.lexFrom]

/-- The tokens of an assignment are the reference and the word `=`. -/
theorem drain_assignment {name : String} (hname : name ≠ "")
    (hblank : ∀ ch ∈ name.toList, Text.isBlank ch = false) :
    ∃ offset, (start ("&" ++ name ++ " =")).drain.tokens
        = [⟨.reference, name, 0⟩, ⟨.word, "=", offset⟩] ∧
      (start ("&" ++ name ++ " =")).drain.failure = none := by
  obtain ⟨htokens, hfailure⟩ := drain_reference hname hblank
  have hword : (start "=").drain = ⟨[⟨.word, "=", 0⟩], none, ⟨⟨1, []⟩, true⟩⟩ := by cbv
  have htext : "&" ++ name ++ " =" = ("&" ++ name).push ' ' ++ "=" := by
    rw [← String.toList_inj]
    simp
  obtain ⟨htokens', hfailure'⟩ := drain_append (w := ' ') (by decide) hfailure "="
  rw [← htext, htokens, hword] at htokens'
  rw [← htext, hword] at hfailure'
  exact ⟨_, htokens', hfailure'⟩

end Lexer

/-! ## The table -/

namespace OperatorTable

/-- The built-in operators are registered, in front of whatever the host has added. -/
def HasBuiltins (table : OperatorTable) : Prop := Builtin.operators <+: table.operators

/-- A name stands for the built-in operator of that name, whatever was registered later. -/
theorem HasBuiltins.find? {table : OperatorTable} (h : table.HasBuiltins) {name : String}
    {op : Operator} (hop : Builtin.operators.find? (fun op => op.name == name) = some op) :
    table.find? name = some op := by
  obtain ⟨more, hmore⟩ := h
  rw [OperatorTable.find?, ← hmore, List.find?_append, hop]
  rfl

end OperatorTable

theorem Calculator.hasBuiltins_new {config : Config} (h : config.builtins = true)
    (lib : ElementaryFunctions) : (Calculator.new config lib).table.HasBuiltins := by
  show Builtin.operators <+: operatorsOf config lib
  rw [operatorsOf, if_pos h]
  exact List.prefix_append ..

/-! ## The run -/

/-- What a new cell holds may as well be what is written to it at once. -/
theorem Cells.write_alloc (cells : Cells) (before after : Value) :
    (cells.alloc before).write cells.next after = cells.alloc after := by
  refine congrArg Cells.mk (Array.ext' ?_)
  simp [alloc, next]

namespace Machine

variable {s : Machine} {name : String}

theorem set_known {w : Variable} (h : s.registry.lookup? name = some w) (v : Value) :
    s.set name v = s.write w v := by
  rw [set, h]

theorem set_new (h : s.registry.lookup? name = none) (v : Value) :
    s.set name v = s.create name v := by
  rw [set, h]

/-- Writing to a variable that was created for it. -/
theorem write_create (s : Machine) (name : String) (before after : Value) :
    (s.create name before).write ⟨name, s.cells.next⟩ after = s.create name after := by
  simp only [write, create, Cells.write_alloc]

end Machine

section

variable {table : OperatorTable} (htable : table.HasBuiltins)
include htable

/-- The word `=` on a reference and a value, above a segment that shows no error value. -/
theorem execute_assign {s : Machine} {target : Variable} {v : Value} {rest : List Slot}
    (hactive : s.stack.active = .variable target :: .value v :: rest)
    (htop : ∀ code, rest.head? ≠ some (.value (.error code))) (mustExist : Bool) (offset : Nat) :
    (execute table mustExist ⟨.word, "=", offset⟩).run s
      = .ok () ((s.withActive rest).write target v) := by
  have hop : table.find? "=" = some ⟨"=", 2, Builtin.assign⟩ := htable.find? rfl
  have hsize : ¬s.stack.size < 2 := by
    rw [Stack.size, hactive, List.length_cons, List.length_cons]
    omega
  have happly : (⟨"=", 2, Builtin.assign⟩ : Operator).apply.run s
      = .ok () ((s.withActive rest).write target v) := by
    rw [Operator.run_apply, if_neg hsize]
    exact Builtin.run_assign hactive
  have hclean : failOnErrorValue.run ((s.withActive rest).write target v)
      = .ok () ((s.withActive rest).write target v) := by
    rw [run_failOnErrorValue]
    split
    · next code h => exact absurd h (htop code)
    · rfl
  rw [execute_of_operator rfl (by simp) (by simp) hop]
  simp only [EStateM.run_bind, happly, hclean]

/-- **The text of an assignment** does to a value what the host does with it. -/
theorem runText_assignment {name : String} (hname : name ≠ "")
    (hblank : ∀ ch ∈ name.toList, Text.isBlank ch = false) {capacity : Nat}
    (hlength : ("&" ++ name ++ " =").utf8ByteSize ≤ capacity) {s : Machine}
    (htop : ∀ code, ¬s.stack.TopError code) (v : Value) :
    (runText table capacity false ("&" ++ name ++ " =") (s.push v)).failure = none ∧
      (runText table capacity false ("&" ++ name ++ " =") (s.push v)).machine = s.set name v := by
  obtain ⟨offset, htokens, hfailure⟩ := Lexer.drain_assignment hname hblank
  rw [runText_eq hlength, htokens, hfailure]
  cases hlookup : s.registry.lookup? name with
  | some w =>
    have hrefer : (execute table false ⟨.reference, name, 0⟩).run (s.push v)
        = .ok () ((s.push v).pushReference w) := Effect.run_refer_known (s := s.push v) hlookup true
    have hassign := execute_assign htable (s := (s.push v).pushReference w) rfl htop false offset
    simp only [runTokens, hrefer, hassign, Machine.set_known hlookup]
    exact ⟨rfl, rfl⟩
  | none =>
    have hrefer : (execute table false ⟨.reference, name, 0⟩).run (s.push v)
        = .ok () (((s.push v).create name .null).pushReference ⟨name, s.cells.next⟩) :=
      Effect.run_refer_new hlookup
    have hassign := execute_assign htable
      (s := ((s.push v).create name .null).pushReference ⟨name, s.cells.next⟩) rfl htop false offset
    simp only [runTokens, hrefer, hassign, Machine.set_new hlookup]
    exact ⟨rfl, Machine.write_create s name .null v⟩

end

/-! ## What is seen of it -/

namespace Machine

/-- A variable shows what it was given. -/
theorem value?_set {s : Machine} (hs : s.Grounded) (name : String) (v : Value) :
    (s.set name v).value? name = some v := by
  cases hlookup : s.registry.lookup? name with
  | some w =>
    have hread := (hs.read_write (Registry.mem_of_lookup? hlookup) v).1 w
    rw [if_pos (by simp [Variable.sharesCell])] at hread
    rw [set_known hlookup, value?]
    show (s.registry.lookup? name).map _ = _
    rw [hlookup, Option.map_some, hread]
  | none =>
    have hfound := Registry.lookup?_insert hlookup ⟨name, s.cells.next⟩
    have hread : (s.cells.alloc v).read s.cells.next = v := by
      rw [Cells.read_alloc, if_pos rfl]
    rw [set_new hlookup, value?]
    show ((s.registry.insert name ⟨name, s.cells.next⟩).lookup? name).map _ = _
    rw [hfound, Option.map_some]
    exact congrArg some hread

end Machine

/-- **Assigning by text and by host agree.** Let the built-in operators be registered, and let the
top of the active segment be no error value. To push a value and to evaluate `&name =` is to give
the variable of that name the value and to drop what is loose then: the text does not fail, and the
two machines are the same, cell by cell, before the loose variables are dropped and afterwards. The
stack is the one that was there before. If the name was known, what shares the cell of its entry
shows the value, and every other cell holds what it held, that of a forgotten variable of the same
name included. If it was not, there is one entry more, and no slot and no other entry shows anything
new. -/
theorem evaluate_assignment {c : Calculator} (htable : c.table.HasBuiltins)
    (hs : c.machine.Grounded) {name : String} (hname : name ≠ "")
    (hblank : ∀ ch ∈ name.toList, Text.isBlank ch = false)
    (hlength : ("&" ++ name ++ " =").utf8ByteSize ≤ c.config.capacity)
    (htop : ∀ code, ¬c.machine.stack.TopError code) (v : Value) :
    let s := c.machine
    let text := "&" ++ name ++ " ="
    let result := (c.push v).evaluate text false
    let stopped := (runText c.table c.config.capacity false text (c.push v).machine).machine
    let defined := (c.define name v).machine
    result.1.failure = none ∧
      result.2 = { c.define name v with machine := defined.dropLoose, failure := none } ∧
      stopped = defined ∧ defined.stack = s.stack ∧ defined.value? name = some v ∧
      (∀ w, s.registry.lookup? name = some w →
        defined.registry = s.registry ∧
        (∀ u : Variable, defined.cells.read u.cell
          = if u.sharesCell w then v else s.cells.read u.cell) ∧
        ∀ slot, defined.see slot = if slot.equal (.variable w) then v else s.see slot) ∧
      (s.registry.lookup? name = none →
        defined.registry = s.registry.insert name ⟨name, s.cells.next⟩ ∧
        (∀ u ∈ s.registry.entries, defined.cells.read u.cell = s.cells.read u.cell) ∧
        ∀ slot ∈ s.stack.slots, defined.see slot = s.see slot) := by
  intro s text result stopped defined
  obtain ⟨hfailure, hstopped⟩ := runText_assignment htable hname hblank hlength htop v
  have hdefined : defined = s.set name v := rfl
  refine ⟨hfailure, ?_, hstopped, ?_, hdefined ▸ Machine.value?_set hs name v, ?_, ?_⟩
  · show ({ c with machine := stopped.dropLoose, failure := result.1.failure } : Calculator) = _
    rw [show stopped = defined from hstopped, show result.1.failure = none from hfailure]
    rfl
  · rw [hdefined, Machine.set]
    split <;> rfl
  · intro w hw
    rw [hdefined, Machine.set_known hw]
    exact ⟨rfl, hs.read_write (Registry.mem_of_lookup? hw) v⟩
  · intro hnone
    rw [hdefined, Machine.set_new hnone]
    exact ⟨rfl, hs.read_alloc v⟩

/-- The lower slot refers to a variable `x` that was forgotten, the upper one to the present `x`. -/
theorem evaluate_assignment_forgotten :
    let calls := [.evaluate "&x" false, .forget "x", .define "x" (.integer 1), .evaluate "$x" false]
    let c := (Session.run ⟨Calculator.new {}, []⟩ calls).calculator
    let text := "&" ++ "x" ++ " ="
    let result := (c.push (.boolean true)).evaluate text false
    c.table.HasBuiltins ∧ c.machine.Grounded ∧ text.utf8ByteSize ≤ c.config.capacity ∧
      c.machine.stack.slots = [.variable ⟨"x", 0⟩, .variable ⟨"x", 1⟩] ∧
      c.machine.stackValues = [.null, .integer 1] ∧
      result.1.failure = none ∧
      result.2.machine = (c.define "x" (.boolean true)).machine.dropLoose ∧
      result.2.machine.stackValues = [.null, .boolean true] := by
  intro calls c text result
  have hcreate : Lexer.ofText "&x" 256 = .ok ⟨⟨0, "&x".toList⟩, false⟩ := if_neg (by decide)
  have hcreated : Lexer.drain ⟨⟨0, "&x".toList⟩, false⟩ =
      ⟨[⟨.reference, "x", 0⟩], none, ⟨⟨2, []⟩, true⟩⟩ := by cbv
  have hbind : Lexer.ofText "$x" 256 = .ok ⟨⟨0, "$x".toList⟩, false⟩ := if_neg (by decide)
  have hbound : Lexer.drain ⟨⟨0, "$x".toList⟩, false⟩ =
      ⟨[⟨.boundReference, "x", 0⟩], none, ⟨⟨2, []⟩, true⟩⟩ := by cbv
  have hfirst : (Calculator.new {}).after (.evaluate "&x" false) = { Calculator.new {} with
      machine := ⟨⟨[.variable ⟨"x", 0⟩], []⟩, ⟨[("x", ⟨"x", 0⟩)]⟩, ⟨#[.null]⟩, []⟩ } := by
    simp only [Calculator.after, Calculator.evaluate, Calculator.new, runText, hcreate, hcreated]
    rfl
  have hreached : c = { Calculator.new {} with
      machine := ⟨⟨[.variable ⟨"x", 1⟩, .variable ⟨"x", 0⟩], []⟩, ⟨[("x", ⟨"x", 1⟩)]⟩,
        ⟨#[.null, .integer 1]⟩, []⟩ } := by
    calc c = ((((Calculator.new {}).after (.evaluate "&x" false)).after (.forget "x")).after
            (.define "x" (.integer 1))).after (.evaluate "$x" false) := rfl
      _ = ({ Calculator.new {} with
            machine := ⟨⟨[.variable ⟨"x", 0⟩], []⟩, ⟨[("x", ⟨"x", 1⟩)]⟩, ⟨#[.null, .integer 1]⟩, []⟩ } :
              Calculator).after (.evaluate "$x" false) := by
        rw [hfirst]
        rfl
      _ = _ := by
        simp only [Calculator.after, Calculator.evaluate, Calculator.new, runText, hbind, hbound]
        rfl
  have htable : c.table.HasBuiltins := by
    rw [hreached]
    exact Calculator.hasBuiltins_new rfl .standard
  have hs : c.machine.Grounded :=
    Session.grounded_run (Calculator.keepsGrounded_new {} .standard) (.of_empty rfl rfl) calls
  have hlength : text.utf8ByteSize ≤ c.config.capacity := by
    rw [hreached]
    decide
  have htop : ∀ code, ¬c.machine.stack.TopError code := by
    rw [hreached]
    intro code h
    cases h
  have hname : "x" ≠ "" := by decide
  have hblank : ∀ ch ∈ "x".toList, Text.isBlank ch = false := by
    intro ch hch
    cases List.mem_singleton.1 hch
    decide
  obtain ⟨hfailure, hresult, -⟩ :=
    evaluate_assignment htable hs hname hblank hlength htop (.boolean true)
  refine ⟨htable, hs, hlength, ?_, ?_, hfailure, congrArg Calculator.machine hresult, ?_⟩
  · rw [hreached]
    rfl
  · rw [hreached]
    rfl
  · rw [hresult, hreached]
    rfl

end ReversePolish
