import ReversePolish.Proofs.Evaluation.Append
/-!
# Runs that create no variables

A host may ask that a text create no variables. Such a strict run knows less than the lenient one
over the same tokens: a name that the lenient run creates is unknown to it, and a bare word that
means a variable there may mean nothing here. But it never comes so far. The two runs are in the
same state until a reference is executed that creates a variable, and it is this reference that the
strict run fails at (`runTokens_strict`). So whatever a strict run does, the lenient one does as
well.
-/

namespace ReversePolish

variable {table : OperatorTable} {tokens : List Token} {t : Token} {s s' : Machine}

/-! ## One token -/

/-- A token does the same under both rules, unless it is a reference to a variable that is not
known. -/
theorem execute_strict (table : OperatorTable) (t : Token) (s : Machine) :
    (execute table true t).run s = (execute table false t).run s ∨
      t.kind = .reference ∧ s.registry.lookup? t.text = none ∧
        (execute table true t).run s = .error (.processing .variableDoesNotExist) s := by
  unfold execute
  split
  · exact .inl rfl
  · exact .inl rfl
  · next hkind =>
    cases hlookup : s.registry.lookup? t.text with
    | some v =>
      refine .inl ?_
      rw [Effect.run_refer_known hlookup, Effect.run_refer_known hlookup]
    | none => exact .inr ⟨hkind, rfl, Effect.run_refer_missing hlookup⟩
  · exact .inl rfl
  · exact .inl rfl

/-- A strict token makes no entry. -/
theorem Executed.registry_eq {lib : ElementaryFunctions}
    {result : EStateM.Result Failure Machine Unit} (h : Executed (.standard lib) true t s result) :
    (Effect.stateOf result).registry = s.registry := by
  cases h with
  | created _ hexist => cases hexist
  | pushed | known | missing | opened | closed | unopened | unresolved => rfl
  | failed op _ s' _ hop h | spoiled op _ s' _ hop h | applied op s' _ hop h =>
    exact (Outcome.of_run hop h).keepsVariables.registry

/-! ## Two runs over the same tokens -/

/-- The strict run and the lenient run over `tokens` part at the token `t`, with `k` others in front
of it, in the state `reached`. -/
structure PartsAt (table : OperatorTable) (tokens : List Token) (s : Machine) (k : Nat) (t : Token)
    (reached : Machine) : Prop where
  token : tokens[k]? = some t
  /-- It refers to a variable that is not known at that moment, and would create it. -/
  kind : t.kind = .reference
  unknown : reached.registry.lookup? t.text = none
  /-- Every token in front of it has done the same in both runs. -/
  together : ∀ j ≤ k,
    runTokens table true (tokens.take j) s = runTokens table false (tokens.take j) s
  reaches : (executeAll table true (tokens.take k)).run s = .ok () reached
  /-- The strict run stops there and leaves the state as it is. -/
  failure : (runTokens table true tokens s).failure
    = some (.atOffset (.processing .variableDoesNotExist) t.offset)
  machine : (runTokens table true tokens s).machine = reached
  /-- The lenient run has recorded whatever the strict one has. -/
  trace : (runTokens table true tokens s).trace <+: (runTokens table false tokens s).trace

theorem runTokens_cons {mustExist : Bool} (h : (execute table mustExist t).run s = .ok () s') :
    runTokens table mustExist (t :: tokens) s =
      { runTokens table mustExist tokens s' with
        trace := ⟨t, s.stack.depth⟩ :: (runTokens table mustExist tokens s').trace } := by
  simp only [runTokens, h]

namespace PartsAt

/-- The first token parts the runs. -/
theorem here (hkind : t.kind = .reference) (hlookup : s.registry.lookup? t.text = none)
    (h : (execute table true t).run s = .error (.processing .variableDoesNotExist) s) :
    PartsAt table (t :: tokens) s 0 t s := by
  have hstops : runTokens table true (t :: tokens) s
      = ⟨some (.atOffset (.processing .variableDoesNotExist) t.offset), s,
          [⟨t, s.stack.depth⟩]⟩ := by
    simp only [runTokens, h]
  refine ⟨rfl, hkind, hlookup, ?_, rfl, by rw [hstops], by rw [hstops], ?_⟩
  · intro j hj
    cases Nat.le_zero.1 hj
    rfl
  · rw [hstops, runTokens]
    cases (execute table false t).run s with
    | error failure final => exact List.prefix_rfl
    | ok _ s' => exact List.prefix_append [_] _

/-- A token that does the same in both runs keeps them together. -/
theorem cons {k : Nat} {u : Token} {reached : Machine}
    (hstrict : (execute table true t).run s = .ok () s')
    (hlenient : (execute table false t).run s = .ok () s')
    (h : PartsAt table tokens s' k u reached) :
    PartsAt table (t :: tokens) s (k + 1) u reached := by
  refine ⟨h.token, h.kind, h.unknown, ?_, ?_, ?_, ?_, ?_⟩
  · intro j hj
    cases j with
    | zero => rfl
    | succ j =>
      rw [List.take_succ_cons, runTokens_cons hstrict, runTokens_cons hlenient,
        h.together j (Nat.le_of_succ_le_succ hj)]
  · rw [List.take_succ_cons, executeAll_cons hstrict]
    exact h.reaches
  · rw [runTokens_cons hstrict]
    exact h.failure
  · rw [runTokens_cons hstrict]
    exact h.machine
  · rw [runTokens_cons hstrict, runTokens_cons hlenient]
    exact List.prefix_cons_inj _ |>.2 h.trace

end PartsAt

/-- **The two runs** come to the same end, or they part. -/
theorem runTokens_strict (table : OperatorTable) (tokens : List Token) (s : Machine) :
    runTokens table true tokens s = runTokens table false tokens s ∨
      ∃ k t reached, PartsAt table tokens s k t reached := by
  induction tokens generalizing s with
  | nil => exact .inl rfl
  | cons t tokens ih =>
    rcases execute_strict table t s with hsame | ⟨hkind, hlookup, hmissing⟩
    · cases hstrict : (execute table true t).run s with
      | error failure final =>
        refine .inl ?_
        simp only [runTokens, ← hsame, hstrict]
      | ok _ s' =>
        have hlenient : (execute table false t).run s = .ok () s' := hsame.symm.trans hstrict
        rcases ih s' with heq | ⟨k, u, reached, hparts⟩
        · refine .inl ?_
          rw [runTokens_cons hstrict, runTokens_cons hlenient, heq]
        · exact .inr ⟨k + 1, u, reached, hparts.cons hstrict hlenient⟩
    · exact .inr ⟨0, t, s, .here hkind hlookup hmissing⟩

/-! ## A text -/

/-- So it is with texts: what stops the lexer is the same for both. -/
theorem runText_strict (table : OperatorTable) (capacity : Nat) (text : String) (s : Machine) :
    let strict := runText table capacity true text s
    let lenient := runText table capacity false text s
    strict = lenient ∨ ∃ k t reached,
      PartsAt table (Lexer.start text).drain.tokens s k t reached ∧
        Lexer.ofText text capacity = .ok (Lexer.start text) ∧
        strict.failure = some (.atOffset (.processing .variableDoesNotExist) t.offset) ∧
        strict.machine = reached ∧ strict.trace <+: lenient.trace := by
  intro strict lenient
  by_cases hlength : text.utf8ByteSize ≤ capacity
  · have hstrict : strict = _ := runText_eq hlength s
    have hlenient : lenient = _ := runText_eq hlength s
    rcases runTokens_strict table (Lexer.start text).drain.tokens s with
      heq | ⟨k, t, reached, hparts⟩
    · refine .inl ?_
      rw [hstrict, hlenient, heq]
    · refine .inr ⟨k, t, reached, hparts, Lexer.ofText_eq hlength, ?_, ?_, ?_⟩
      · simp only [hstrict, hparts.failure, Option.some_or]
      · rw [hstrict]
        exact hparts.machine
      · rw [hstrict, hlenient]
        exact hparts.trace
  · refine .inl ?_
    simp only [strict, lenient, runText_refused hlength]

/-- No token of a strict run changes the registry. -/
theorem runTokens_strict_registry (lib : ElementaryFunctions) (tokens : List Token) (s : Machine) :
    (runTokens (.standard lib) true tokens s).machine.registry = s.registry :=
  runTokens_induction (P := fun reached => reached.registry = s.registry)
    (fun _ _ _ hs h => h.registry_eq.trans hs) rfl tokens

theorem runText_strict_registry (lib : ElementaryFunctions) (capacity : Nat) (text : String)
    (s : Machine) :
    (runText (.standard lib) capacity true text s).machine.registry = s.registry :=
  runText_induction (P := fun reached => reached.registry = s.registry)
    (fun _ _ _ hs h => h.registry_eq.trans hs) rfl capacity text

/-- **Creating no variables only restricts.** Let a text be evaluated twice from the same state,
once strictly and once not. Either the two come to the same end in the same state, or the strict one
fails at a reference to a variable that is not known at that moment, all tokens in front of which
have done the same in both: it says where, and leaves what those tokens have made of the state.
However it ends, no token of it has changed the registry, and what is dropped at the end is all that
is missing. -/
theorem evaluate_strict {c : Calculator} {lib : ElementaryFunctions}
    (htable : c.table = .standard lib) (text : String) :
    let tokens := (Lexer.start text).drain.tokens
    let strict := c.evaluate text true
    let lenient := c.evaluate text false
    (strict = lenient ∨
      ∃ k t reached, PartsAt c.table tokens c.machine k t reached ∧
        Lexer.ofText text c.config.capacity = .ok (Lexer.start text) ∧
        strict.1.failure = some (.atOffset (.processing .variableDoesNotExist) t.offset) ∧
        strict.2.machine = reached.dropLoose ∧ strict.1.trace <+: lenient.1.trace) ∧
      (∀ j, (runTokens c.table true (tokens.take j) c.machine).machine.registry
        = c.machine.registry) ∧
      strict.2.machine.registry.byName.Sublist c.machine.registry.byName := by
  intro tokens strict lenient
  refine ⟨?_, fun j => ?_, ?_⟩
  · rcases runText_strict c.table c.config.capacity text c.machine with
      heq | ⟨k, t, reached, hparts, hfits, hfailure, hmachine, htrace⟩
    · refine .inl ?_
      simp only [strict, lenient, Calculator.evaluate, heq]
    · have hdropped : strict.2.machine = reached.dropLoose := by
        rw [Calculator.machine_evaluate, hmachine]
      exact .inr ⟨k, t, reached, hparts, hfits, hfailure, hdropped, htrace⟩
  · rw [htable]
    exact runTokens_strict_registry lib _ _
  · have hstopped := runText_strict_registry lib c.config.capacity text c.machine
    rw [Calculator.machine_evaluate, htable, ← hstopped]
    exact List.filter_sublist

/-- The first reference is to a variable that the host has defined, the second one to a variable
that only the lenient run creates, and the word `y` means something there alone. -/
theorem evaluate_strict_unknown :
    let c := (Calculator.new {}).define "x" (.integer 1)
    let text := "&x 2i &y y"
    let tokens := (Lexer.start text).drain.tokens
    c.table = .standard .standard ∧
      (c.evaluate text false).1.failure = none ∧
      (c.evaluate text true).1.failure
        = some (.atOffset (.processing .variableDoesNotExist) 6) ∧
      (∃ k t reached, PartsAt c.table tokens c.machine k t reached ∧ t.offset = 6 ∧
        (c.evaluate text true).2.machine = reached.dropLoose) ∧
      (c.evaluate text true).2.machine.registry.byName.Sublist [("x", ⟨"x", 0⟩)] := by
  intro c text tokens
  have hfits : Lexer.ofText text c.config.capacity = .ok ⟨⟨0, text.toList⟩, false⟩ :=
    if_neg (by decide)
  have hdrain : Lexer.drain ⟨⟨0, text.toList⟩, false⟩ =
      ⟨[⟨.reference, "x", 0⟩, ⟨.number (.integer 2), "2i", 3⟩, ⟨.reference, "y", 6⟩,
        ⟨.word, "y", 9⟩], none, ⟨⟨10, []⟩, true⟩⟩ := by cbv
  have hlenient : (c.evaluate text false).1.failure = none := by
    simp only [Calculator.evaluate, runText, hfits, hdrain, c]
    rfl
  have hstrict : (c.evaluate text true).1.failure
      = some (.atOffset (.processing .variableDoesNotExist) 6) := by
    simp only [Calculator.evaluate, runText, hfits, hdrain, c]
    rfl
  obtain ⟨hends, -, hentries⟩ := evaluate_strict (c := c) rfl text
  refine ⟨rfl, hlenient, hstrict, ?_, hentries⟩
  rcases hends with hsame | ⟨k, t, reached, hparts, -, hfailure, hmachine, -⟩
  · rw [hsame, hlenient] at hstrict
    cases hstrict
  · have hoffset : t.offset = 6 := by
      rw [hstrict] at hfailure
      simpa [Diagnostic.atOffset] using hfailure.symm
    exact ⟨k, t, reached, hparts, hoffset, hmachine⟩

end ReversePolish
