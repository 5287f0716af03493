import ReversePolish.Proofs.Evaluation.Reached
import ReversePolish.Proofs.Variable.Pruning
/-!
# What a text does to variables

A text can do three things to variables, and each of them shows in the text. A name enters the
registry if a reference `&name` stands in the text, and not if the host has asked that no variable
be created. A cell is written to if the word `=` finds a reference to it on top of the stack. And a
name leaves the registry only at the end of the text, if it is loose then.

`Machine.AltersOnly` says this of two states, with the names and the cells in question as
parameters. One token alters the name that it refers to and the cell that it writes to, and a run
over tokens what the tokens alter that it comes to (`altersOnly_runTokens`). No assumption is made
about the state: two entries may share a cell, and slots may refer to variables long forgotten.
-/

namespace ReversePolish

namespace Machine

/-- What becomes of the variables between two states: none leaves the registry, of the names that
are not known only `names` enter it, and of the cells only `cells` are written to. -/
structure AltersOnly (names : String → Prop) (cells : CellId → Prop) (s s' : Machine) : Prop where
  stays : ∀ name v, s.registry.lookup? name = some v → s'.registry.lookup? name = some v
  enters : ∀ name v, s.registry.lookup? name = none → s'.registry.lookup? name = some v → names name
  holds : ∀ c, s'.cells.read c = s.cells.read c ∨ cells c

namespace AltersOnly

variable {names names' : String → Prop} {cells cells' : CellId → Prop} {s s' s'' : Machine}

theorem of_eq (hregistry : s'.registry = s.registry) (hcells : s'.cells = s.cells) :
    s.AltersOnly names cells s' := by
  constructor
  · intro name v h
    rwa [hregistry]
  · intro name v hnone hsome
    rw [hregistry, hnone] at hsome
    cases hsome
  · intro c
    exact .inl (by rw [hcells])

theorem mono (h : s.AltersOnly names cells s') (hnames : ∀ name, names name → names' name)
    (hcells : ∀ c, cells c → cells' c) : s.AltersOnly names' cells' s' :=
  ⟨h.stays, fun name v hnone hsome => hnames name (h.enters name v hnone hsome),
    fun c => (h.holds c).imp_right (hcells c)⟩

theorem trans (h : s.AltersOnly names cells s') (h' : s'.AltersOnly names cells s'') :
    s.AltersOnly names cells s'' := by
  constructor
  · intro name v hv
    exact h'.stays name v (h.stays name v hv)
  · intro name v hnone hsome
    cases hmid : s'.registry.lookup? name with
    | none => exact h'.enters name v hmid hsome
    | some w => exact h.enters name w hnone hmid
  · intro c
    rcases h.holds c with hc | hc
    · rcases h'.holds c with hc' | hc'
      · exact .inl (hc'.trans hc)
      · exact .inr hc'
    · exact .inr hc

/-- Writing to a variable. -/
theorem write (s : Machine) (target : Variable) (value : Value) (names : String → Prop) :
    s.AltersOnly names (target.cell = ·) (s.write target value) := by
  refine ⟨fun _ _ h => h, fun _ _ hnone hsome => ?_, fun c => ?_⟩
  · rw [show (s.write target value).registry = s.registry from rfl, hnone] at hsome
    cases hsome
  · show (s.cells.write target.cell value).read c = _ ∨ _
    rw [Cells.read_write]
    split
    · next h => exact .inr h.1
    · exact .inl rfl

/-- Creating a variable with null. A cell that was never handed out reads as null, so a new cell
shows what it has always shown. -/
theorem create {name : String} (h : s.registry.lookup? name = none) (cells : CellId → Prop) :
    s.AltersOnly (name = ·) cells (s.create name .null) := by
  constructor
  · intro other v hv
    have hne : name ≠ other := by
      rintro rfl
      rw [h] at hv
      cases hv
    exact (s.registry.lookup?_insert_of_ne _ hne).trans hv
  · intro other v hnone hsome
    refine Classical.byContradiction fun hne => ?_
    have hsame := s.registry.lookup?_insert_of_ne ⟨name, s.cells.next⟩ hne
    rw [show (s.create name .null).registry = s.registry.insert name ⟨name, s.cells.next⟩ from rfl,
      hsame, hnone] at hsome
    cases hsome
  · intro c
    left
    show (s.cells.alloc .null).read c = s.cells.read c
    rw [Cells.read_alloc]
    split
    · next hc =>
      subst hc
      simp [Cells.read, Cells.next]
    · rfl

end AltersOnly

/-- A loose variable holds null, and no slot of any segment refers to its cell. -/
theorem of_isLoose {s : Machine} {v : Variable} (hv : v ∈ s.registry.entries)
    (h : s.isLoose v = true) :
    s.cells.read v.cell = .null ∧
      ∀ w, Slot.variable w ∈ s.stack.slots → w.sharesCell v = false := by
  rw [isLoose, Bool.and_eq_true, beq_iff_eq] at h
  obtain ⟨hnull, hcount⟩ := h
  have hentries : 0 < s.registry.entries.countP fun w => w.cell == v.cell :=
    List.countP_pos_iff.2 ⟨v, hv, by simp⟩
  have hreferences : s.references.countP (fun w => w.cell == v.cell) = 0 := by
    rw [holderCount, List.countP_append, List.countP_append] at hcount
    omega
  constructor
  · cases hread : s.cells.read v.cell <;> simp_all [Value.isNull]
  · intro w hw
    have hmem : w ∈ s.references := List.mem_filterMap.2 ⟨_, hw, rfl⟩
    simpa [Variable.sharesCell] using List.countP_eq_zero.1 hreferences w hmem

end Machine

/-! ## One token -/

/-- The token is the word `=`, and it finds a reference to the cell `c` on top of the stack. -/
def Token.WritesTo (t : Token) (s : Machine) (c : CellId) : Prop :=
  t.isWord "=" = true ∧ ∃ target, s.stack.active.head? = some (.variable target) ∧ target.cell = c

/-- The token is a reference to `name`, and may create the variable. -/
def Token.MayCreate (t : Token) (mustExist : Bool) (name : String) : Prop :=
  mustExist = false ∧ t.kind = .reference ∧ t.text = name

variable {lib : ElementaryFunctions} {mustExist : Bool} {t : Token} {s : Machine}

/-- An operator writes to the cell that its top operand refers to, if it is `=`, and to no cell if
it is another one. -/
theorem Outcome.altersOnly {op : Operator} {result : EStateM.Result Failure Machine Unit}
    (h : Outcome op s result) (names : String → Prop) :
    s.AltersOnly names
      (fun c => op.name = "=" ∧ ∃ target, s.stack.active.head? = some (.variable target) ∧
        target.cell = c) (Effect.stateOf result) := by
  cases h with
  | short | refused | stopped | computed | moved => exact .of_eq rfl rfl
  | assigned target source rest hname hactive =>
    have htop : s.stack.active.head? = some (.variable target) := by rw [hactive]; rfl
    have hrest : s.AltersOnly names (target.cell = ·) (s.withActive rest) := .of_eq rfl rfl
    refine (hrest.trans (.write _ target (s.see source) names)).mono (fun _ h => h) ?_
    intro c hc
    exact ⟨hname, target, htop, hc⟩

/-- A token alters the name that it may create, and the cell that it writes to. -/
theorem Executed.altersOnly {result : EStateM.Result Failure Machine Unit}
    (h : Executed (.standard lib) mustExist t s result) :
    s.AltersOnly (t.MayCreate mustExist) (t.WritesTo s) (Effect.stateOf result) := by
  cases h with
  | pushed | known | missing | opened | closed | unopened | unresolved => exact .of_eq rfl rfl
  | created hkind hexist h =>
    have hcreate : s.AltersOnly (t.MayCreate mustExist) (t.WritesTo s) (s.create t.text .null) :=
      (Machine.AltersOnly.create h _).mono (fun _ hname => ⟨hexist, hkind, hname⟩) fun _ hc => hc
    exact hcreate.trans (.of_eq rfl rfl)
  | failed op _ _ hkind hop h | spoiled op _ _ hkind hop h | applied op _ hkind hop h =>
    have hname : op.name = t.text := (outcome_of_find? hop s).1
    refine ((Outcome.of_run hop h).altersOnly _).mono (fun _ h => h) ?_
    rintro c ⟨hassign, htop⟩
    exact ⟨Token.isWord_iff.2 ⟨hkind, hname.symm.trans hassign⟩, htop⟩

/-! ## A run -/

/-- A run over `tokens` comes to a `=` that writes to the cell `c`. -/
def WrittenIn (table : OperatorTable) (mustExist : Bool) (tokens : List Token) (s : Machine)
    (c : CellId) : Prop :=
  ∃ t reached, Reaches table mustExist tokens s t reached ∧ t.WritesTo reached c

/-- **A run** alters the names that its tokens may create, and the cells that are written to by
those that it comes to. -/
theorem altersOnly_runTokens (lib : ElementaryFunctions) (mustExist : Bool) (tokens : List Token)
    (s : Machine) :
    s.AltersOnly (fun name => ∃ t ∈ tokens, t.MayCreate mustExist name)
      (WrittenIn (.standard lib) mustExist tokens s)
      (runTokens (.standard lib) mustExist tokens s).machine := by
  induction tokens generalizing s with
  | nil => exact .of_eq rfl rfl
  | cons t tokens ih =>
    have htoken : s.AltersOnly (fun name => ∃ u ∈ t :: tokens, u.MayCreate mustExist name)
        (WrittenIn (.standard lib) mustExist (t :: tokens) s)
        (Effect.stateOf ((execute (.standard lib) mustExist t).run s)) :=
      (executed (.standard lib) mustExist t s).altersOnly.mono
        (fun name hname => ⟨t, List.mem_cons_self, hname⟩)
        fun c hc => ⟨t, s, .here t tokens s, hc⟩
    rw [runTokens]
    cases hstep : (execute (.standard lib) mustExist t).run s with
    | error failure final =>
      rw [hstep] at htoken
      exact htoken
    | ok _ s' =>
      rw [hstep] at htoken
      refine htoken.trans ((ih s').mono ?_ ?_)
      · rintro name ⟨u, hu, hname⟩
        exact ⟨u, List.mem_cons_of_mem _ hu, hname⟩
      · rintro c ⟨u, reached, hreaches, hc⟩
        exact ⟨u, reached, .later hstep hreaches, hc⟩

/-! ## A text -/

/-- The evaluation of a text comes to a `=` that writes to the cell `c`. -/
def TextWrites (table : OperatorTable) (capacity : Nat) (mustExist : Bool) (text : String)
    (s : Machine) (c : CellId) : Prop :=
  ∃ t reached, TextReaches table capacity mustExist text s t reached ∧ t.WritesTo reached c

theorem altersOnly_runText (lib : ElementaryFunctions) (capacity : Nat) (mustExist : Bool)
    (text : String) (s : Machine) :
    s.AltersOnly (fun name => ∃ t ∈ (Lexer.start text).drain.tokens, t.MayCreate mustExist name)
      (TextWrites (.standard lib) capacity mustExist text s)
      (runText (.standard lib) capacity mustExist text s).machine := by
  by_cases hfits : text.utf8ByteSize ≤ capacity
  · rw [runText_eq hfits]
    refine (altersOnly_runTokens lib mustExist _ s).mono (fun _ h => h) ?_
    rintro c ⟨t, reached, hreaches, hwrites⟩
    exact ⟨t, reached, ⟨hfits, hreaches⟩, hwrites⟩
  · rw [runText_refused hfits]
    exact .of_eq rfl rfl

/-- A text writes nothing that has no word `=` among its tokens. -/
theorem TextWrites.exists_isWord {table : OperatorTable} {capacity : Nat} {text : String}
    {c : CellId} (h : TextWrites table capacity mustExist text s c) :
    ∃ t ∈ (Lexer.start text).drain.tokens, t.isWord "=" = true := by
  obtain ⟨t, reached, hreaches, hassign, -⟩ := h
  exact ⟨t, hreaches.reaches.mem, hassign⟩

/-- **What a text may do to variables**, whatever comes of it.

* A name that is registered afterwards was registered before, or it is that of a reference `&name`
  in the text, and then the host has let the text create variables.
* A name that was registered before is still that of the same variable, or it is gone, and then its
  variable held null when the text had ended, and no slot of any segment referred to it.
* A cell holds what it held, or the text has come to a `=` with a reference to that very cell on top
  of the stack.
* So a text without the word `=` writes to no cell, and what is not null is found under its name as
  before. -/
theorem evaluate_footprint {c : Calculator} (htable : c.table = .standard lib) (text : String)
    (mustExist : Bool) :
    let tokens := (Lexer.start text).drain.tokens
    let s := c.machine
    let stopped := (runText c.table c.config.capacity mustExist text s).machine
    let s' := (c.evaluate text mustExist).2.machine
    (∀ name, s'.registry.contains name = true → s.registry.contains name = true ∨
        mustExist = false ∧ ∃ t ∈ tokens, t.kind = .reference ∧ t.text = name) ∧
      (∀ name v, s.registry.lookup? name = some v → s'.registry.lookup? name = some v ∨
        stopped.registry.lookup? name = some v ∧ stopped.cells.read v.cell = .null ∧
          ∀ w, Slot.variable w ∈ stopped.stack.slots → w.sharesCell v = false) ∧
      (∀ cell, s'.cells.read cell = s.cells.read cell ∨
        TextWrites c.table c.config.capacity mustExist text s cell) ∧
      ((∀ t ∈ tokens, t.isWord "=" = false) →
        (∀ cell, s'.cells.read cell = s.cells.read cell) ∧
          ∀ name v, s.value? name = some v → v ≠ .null → s'.value? name = some v) := by
  intro tokens s stopped s'
  have hrun : s.AltersOnly (fun name => ∃ t ∈ tokens, t.MayCreate mustExist name)
      (TextWrites c.table c.config.capacity mustExist text s) stopped := by
    simp only [stopped, htable]
    exact altersOnly_runText lib _ mustExist text s
  have hstays : ∀ name v, s.registry.lookup? name = some v → s'.registry.lookup? name = some v ∨
      stopped.registry.lookup? name = some v ∧ stopped.cells.read v.cell = .null ∧
        ∀ w, Slot.variable w ∈ stopped.stack.slots → w.sharesCell v = false := by
    intro name v hv
    have hstopped := hrun.stays name v hv
    cases hloose : stopped.isLoose v with
    | true =>
      exact .inr ⟨hstopped, Machine.of_isLoose (Registry.mem_of_lookup? hstopped) hloose⟩
    | false =>
      have hkept : (!stopped.isLoose v) = true := by rw [hloose]; rfl
      exact .inl (Registry.lookup?_filter hstopped hkept)
  refine ⟨fun name hname => ?_, hstays, hrun.holds, fun hnone => ?_⟩
  · obtain ⟨v, hv⟩ := Registry.contains_iff.1 hname
    have hstopped : stopped.registry.contains name = true :=
      Registry.contains_iff.2 ⟨v, List.mem_of_mem_filter hv⟩
    cases hbefore : s.registry.lookup? name with
    | some w => exact .inl (by simp [Registry.contains, hbefore])
    | none =>
      obtain ⟨w, hw⟩ := Option.isSome_iff_exists.1 hstopped
      obtain ⟨t, ht, hexist, hkind, htext⟩ := hrun.enters name w hbefore hw
      exact .inr ⟨hexist, t, ht, hkind, htext⟩
  · have hcells : ∀ cell, s'.cells.read cell = s.cells.read cell := by
      intro cell
      refine (hrun.holds cell).resolve_right fun hwrites => ?_
      obtain ⟨t, ht, hassign⟩ := hwrites.exists_isWord
      rw [hnone t ht] at hassign
      cases hassign
    refine ⟨hcells, fun name value hvalue hne => ?_⟩
    obtain ⟨v, hv, rfl⟩ := Option.map_eq_some_iff.1 hvalue
    rcases hstays name v hv with hkept | ⟨-, hnull, -⟩
    · rw [Machine.value?, hkept, Option.map_some, hcells]
    · exact absurd ((hcells v.cell).symm.trans hnull) hne

/-- The text gives the variable `x` of the host a value and makes one of its own; `y`, which the
host has given null, is gone afterwards. -/
theorem evaluate_footprint_assigned :
    let c := ((Calculator.new {}).define "x" (.integer 1)).define "y" .null
    let text := "7i $x = &new"
    let tokens := (Lexer.start text).drain.tokens
    let stopped := (runText c.table 256 false text c.machine).machine
    let s' := (c.evaluate text false).2.machine
    c.table = .standard .standard ∧ s'.registry.entries = [⟨"new", 2⟩, ⟨"x", 0⟩] ∧
      (∃ t ∈ tokens, t.kind = .reference ∧ t.text = "new") ∧
      (stopped.cells.read 1 = .null ∧
        ∀ w, Slot.variable w ∈ stopped.stack.slots → w.sharesCell ⟨"y", 1⟩ = false) ∧
      s'.cells.read 0 = .integer 7 ∧ TextWrites c.table 256 false text c.machine 0 := by
  intro c text tokens stopped s'
  have hfits : Lexer.ofText text 256 = .ok ⟨⟨0, text.toList⟩, false⟩ := if_neg (by decide)
  have hdrain : Lexer.drain ⟨⟨0, text.toList⟩, false⟩ =
      ⟨[⟨.number (.integer 7), "7i", 0⟩, ⟨.boundReference, "x", 3⟩, ⟨.word, "=", 6⟩,
        ⟨.reference, "new", 8⟩], none, ⟨⟨12, []⟩, true⟩⟩ := by cbv
  have hstart : c.machine = ⟨{}, ⟨[("x", ⟨"x", 0⟩), ("y", ⟨"y", 1⟩)]⟩,
      ⟨#[.integer 1, .null]⟩, []⟩ := rfl
  have hreached : s' = ⟨⟨[.variable ⟨"new", 2⟩], []⟩,
      ⟨[("new", ⟨"new", 2⟩), ("x", ⟨"x", 0⟩)]⟩,
      ⟨#[.integer 7, .null, .null]⟩, []⟩ := by
    simp only [s', Calculator.evaluate, Calculator.define, Calculator.new, runText, hfits, hdrain, c]
    rfl
  obtain ⟨hnames, hstays, hcells, -⟩ := evaluate_footprint (c := c) rfl text false
  refine ⟨rfl, by rw [hreached]; rfl, ?_, ?_, by rw [hreached]; rfl, ?_⟩
  · have hnew : s'.registry.contains "new" = true := by rw [hreached]; rfl
    refine ((hnames "new" hnew).resolve_left ?_).2
    rw [hstart]
    decide
  · have hy : c.machine.registry.lookup? "y" = some ⟨"y", 1⟩ := by rw [hstart]; rfl
    refine ((hstays "y" _ hy).resolve_left ?_).2
    rw [show (c.evaluate text false).2.machine = s' from rfl, hreached]
    decide
  · refine (hcells 0).resolve_left ?_
    rw [show (c.evaluate text false).2.machine = s' from rfl, hreached, hstart]
    simp [Cells.read]

end ReversePolish
