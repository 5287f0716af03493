import ReversePolish.Calculator
import ReversePolish.Proofs.Lexing.Refusals
import ReversePolish.Proofs.Machine.Active
/-!
# What executing a token can do

`Executed` lists all that can come of executing one token with a table of operators: a value or a
reference is pushed, a segment is opened or closed, the token is refused and nothing has changed,
or the word is an operator, and then the outcome is that of the operator, unless the operator
left an error value on top.

A run is a sequence of such steps. `runEnds` says where it ends: with all tokens executed, or at the
one that failed, in the state in which its execution left the machine. So what every token keeps is
true at the end of a text, see `leaves_runText`.
-/

namespace ReversePolish

/-! ## References -/

namespace Effect

variable {s : Machine} {name : String}

theorem run_refer_known {v : Variable} (h : s.registry.lookup? name = some v) (create : Bool) :
    (refer name create).run s = .ok () (s.pushReference v) := by
  simp only [refer, run_ofStep, Machine.refer, Machine.obtain, h]
  cases create <;> rfl

theorem run_refer_new (h : s.registry.lookup? name = none) :
    (refer name true).run s
      = .ok () ((s.create name .null).pushReference ⟨name, s.cells.next⟩) := by
  simp only [refer, run_ofStep, Machine.refer, Machine.obtain, h]
  rfl

theorem run_refer_missing (h : s.registry.lookup? name = none) :
    (refer name false).run s = .error (.processing .variableDoesNotExist) s := by
  simp only [refer, run_ofStep, Machine.refer, h]
  rfl

end Effect

/-! ## One token -/

/-- The stack shows an error value on top, not through a reference. -/
def Stack.TopError (s : Stack) (code : ValueError) : Prop :=
  s.active.head? = some (.value (.error code))

theorem run_failOnErrorValue (s : Machine) :
    failOnErrorValue.run s = match s.stack.active.head? with
      | some (.value (.error code)) => .error (.value code) s
      | _ => .ok () s := by
  simp only [failOnErrorValue, EStateM.run_bind, EStateM.run_get]
  rcases s.stack.active.head? with _ | v | v
  · rfl
  · cases v <;> rfl
  · rfl

/-- A word that names an operator, and is no bracket, applies it and looks at the top of the
stack. -/
theorem execute_of_operator {table : OperatorTable} {mustExist : Bool} {t : Token} {op : Operator}
    (hkind : t.kind = .word) (hopen : t.text ≠ "[") (hclose : t.text ≠ "]")
    (hoperator : table.find? t.text = some op) :
    execute table mustExist t = (do op.apply; failOnErrorValue : Effect Unit) := by
  rw [execute, hkind]
  show executeWord table t.text = _
  rw [executeWord, if_neg hopen, if_neg hclose, hoperator]

/-- What can come of executing a token. -/
inductive Executed (table : OperatorTable) (mustExist : Bool) (t : Token) (s : Machine) :
    EStateM.Result Failure Machine Unit → Prop where
  /-- A number or a string is pushed. -/
  | pushed (v : Value) (hkind : t.kind ≠ .word) (hv : v.isError = false) :
      Executed table mustExist t s (.ok () (s.push v))
  /-- A reference to a known variable is pushed. -/
  | known (v : Variable) (h : s.registry.lookup? t.text = some v) :
      Executed table mustExist t s (.ok () (s.pushReference v))
  /-- A variable is created, and a reference to it pushed. -/
  | created (hkind : t.kind = .reference) (hexist : mustExist = false)
      (h : s.registry.lookup? t.text = none) :
      Executed table mustExist t s
        (.ok () ((s.create t.text .null).pushReference ⟨t.text, s.cells.next⟩))
  /-- There is no variable to refer to. -/
  | missing (hkind : t.kind = .boundReference ∨ t.kind = .reference ∧ mustExist = true)
      (h : s.registry.lookup? t.text = none) :
      Executed table mustExist t s (.error (.processing .variableDoesNotExist) s)
  | opened (hkind : t.kind = .word) (htext : t.text = "[") :
      Executed table mustExist t s (.ok () { s with stack := s.stack.openSegment })
  | closed (parent : List Slot) (parked : List (List Slot)) (hkind : t.kind = .word)
      (htext : t.text = "]") (h : s.stack.parked = parent :: parked) :
      Executed table mustExist t s (.ok () { s with
        stack := ⟨.value (.unsigned (UInt64.ofNat s.stack.size)) :: s.stack.active ++ parent,
          parked⟩ })
  /-- There is no segment to close. -/
  | unopened (hkind : t.kind = .word) (htext : t.text = "]") (h : s.stack.parked = []) :
      Executed table mustExist t s (.error (.processing .noMoreStacks) s)
  /-- The word is no operator and no variable. -/
  | unresolved (code : ProcessingError) (hkind : t.kind = .word)
      (hoperator : table.find? t.text = none) (h : s.registry.lookup? t.text = none)
      (hcode : code = .unknownToken ∨ code = .unknownOperator) :
      Executed table mustExist t s (.error (.processing code) s)
  /-- The operator fails. -/
  | failed (op : Operator) (failure : Failure) (s' : Machine) (hkind : t.kind = .word)
      (hoperator : table.find? t.text = some op) (h : op.apply.run s = .error failure s') :
      Executed table mustExist t s (.error failure s')
  /-- The operator leaves an error value on top. -/
  | spoiled (op : Operator) (code : ValueError) (s' : Machine) (hkind : t.kind = .word)
      (hoperator : table.find? t.text = some op) (h : op.apply.run s = .ok () s')
      (htop : s'.stack.TopError code) :
      Executed table mustExist t s (.error (.value code) s')
  /-- The operator has done its work. -/
  | applied (op : Operator) (s' : Machine) (hkind : t.kind = .word)
      (hoperator : table.find? t.text = some op) (h : op.apply.run s = .ok () s')
      (htop : ∀ code, ¬s'.stack.TopError code) :
      Executed table mustExist t s (.ok () s')

namespace Executed

variable {table : OperatorTable} {mustExist : Bool} {t : Token} {s : Machine}

/-- A word that names an operator applies it and looks at the top of the stack. -/
theorem of_operator {op : Operator} (hkind : t.kind = .word)
    (hoperator : table.find? t.text = some op) :
    Executed table mustExist t s ((do op.apply; failOnErrorValue : Effect Unit).run s) := by
  rw [EStateM.run_bind]
  cases h : op.apply.run s with
  | error failure s' => exact .failed op failure s' hkind hoperator h
  | ok _ s' =>
    simp only [run_failOnErrorValue]
    split
    · next code htop => exact .spoiled op code s' hkind hoperator h htop
    · next hno => exact .applied op s' hkind hoperator h fun code htop => hno code htop

theorem of_word (hkind : t.kind = .word) :
    Executed table mustExist t s ((executeWord table t.text).run s) := by
  unfold executeWord
  split
  · next htext => exact .opened hkind htext
  · split
    · next htext =>
      simp only [Effect.closeSegment, Effect.run_ofStep, Stack.closeSegment]
      cases h : s.stack.parked with
      | nil => exact .unopened hkind htext h
      | cons parent parked => exact .closed parent parked hkind htext h
    · split
      · next op hoperator => exact of_operator hkind hoperator
      · next hoperator =>
        simp only [EStateM.run_bind, EStateM.run_get]
        cases h : s.registry.lookup? t.text with
        | some v =>
          rw [if_pos (by rw [Registry.contains, h]; rfl), Effect.run_refer_known h]
          exact .known v h
        | none =>
          rw [if_neg (by rw [Registry.contains, h]; simp)]
          split
          · exact .unresolved _ hkind hoperator h (.inl rfl)
          · exact .unresolved _ hkind hoperator h (.inr rfl)

end Executed

/-- **Every token**, whatever the table and the state, comes to one of these. -/
theorem executed (table : OperatorTable) (mustExist : Bool) (t : Token) (s : Machine) :
    Executed table mustExist t s ((execute table mustExist t).run s) := by
  unfold execute
  split
  · next n hkind => exact .pushed (.number n) (by rw [hkind]; simp) rfl
  · next hkind => exact .pushed (.string t.text) (by rw [hkind]; simp) rfl
  · next hkind =>
    cases h : s.registry.lookup? t.text with
    | some v =>
      rw [Effect.run_refer_known h]
      exact .known v h
    | none =>
      cases mustExist with
      | false =>
        rw [Bool.not_false, Effect.run_refer_new h]
        exact .created hkind rfl h
      | true =>
        rw [Bool.not_true, Effect.run_refer_missing h]
        exact .missing (.inr ⟨hkind, rfl⟩) h
  · next hkind =>
    cases h : s.registry.lookup? t.text with
    | some v =>
      rw [Effect.run_refer_known h]
      exact .known v h
    | none =>
      rw [Effect.run_refer_missing h]
      exact .missing (.inl hkind) h
  · next hkind => exact Executed.of_word hkind

theorem Executed.of_run {table : OperatorTable} {mustExist : Bool} {t : Token} {s : Machine}
    {result : EStateM.Result Failure Machine Unit}
    (h : (execute table mustExist t).run s = result) : Executed table mustExist t s result :=
  h ▸ executed table mustExist t s

/-! ## A run -/

/-- Executes tokens one after the other. -/
def executeAll (table : OperatorTable) (mustExist : Bool) (tokens : List Token) : Effect Unit :=
  tokens.forM (execute table mustExist)

/-- The records of tokens that were executed from the state `s` on: every token once, in order, with
the depth of the stack that all tokens in front of it have left. -/
def IsTrace (table : OperatorTable) (mustExist : Bool) (s : Machine) (tokens : List Token)
    (records : List Trace) : Prop :=
  records.map Trace.token = tokens ∧
    ∀ i record, records[i]? = some record → ∃ reached,
      (executeAll table mustExist (tokens.take i)).run s = .ok () reached ∧
        record.depth = reached.stack.depth

section

variable {table : OperatorTable} {mustExist : Bool} {t : Token} {tokens : List Token}
  {s s' : Machine}

theorem executeAll_cons (h : (execute table mustExist t).run s = .ok () s') :
    (executeAll table mustExist (t :: tokens)).run s
      = (executeAll table mustExist tokens).run s' := by
  simp only [executeAll, List.forM_eq_forM, List.forM_cons, EStateM.run_bind, h]

theorem isTrace_nil : IsTrace table mustExist s [] [] :=
  ⟨rfl, fun i entry h => by simp at h⟩

theorem isTrace_singleton : IsTrace table mustExist s [t] [⟨t, s.stack.depth⟩] := by
  refine ⟨rfl, fun i entry h => ?_⟩
  cases i with
  | zero => cases h; exact ⟨s, rfl, rfl⟩
  | succ i => simp at h

theorem isTrace_cons {trace : List Trace} (h : (execute table mustExist t).run s = .ok () s')
    (htrace : IsTrace table mustExist s' tokens trace) :
    IsTrace table mustExist s (t :: tokens) (⟨t, s.stack.depth⟩ :: trace) := by
  refine ⟨by rw [List.map_cons, htrace.1], fun i entry hentry => ?_⟩
  cases i with
  | zero => cases hentry; exact ⟨s, rfl, rfl⟩
  | succ i =>
    obtain ⟨reached, hrun, hdepth⟩ := htrace.2 i entry hentry
    exact ⟨reached, by rw [List.take_succ_cons, executeAll_cons h, hrun], hdepth⟩

end

/-- Where a run over tokens ends, and what it has recorded. -/
inductive RunEnds (table : OperatorTable) (mustExist : Bool) (tokens : List Token) (s : Machine) :
    Run → Prop where
  /-- All tokens are executed. -/
  | finished (reached : Machine) (trace : List Trace)
      (hrun : (executeAll table mustExist tokens).run s = .ok () reached)
      (htrace : IsTrace table mustExist s tokens trace) :
      RunEnds table mustExist tokens s ⟨none, reached, trace⟩
  /-- A token has failed. -/
  | failed (before after : List Token) (t : Token) (reached final : Machine) (failure : Failure)
      (trace : List Trace) (htokens : tokens = before ++ t :: after)
      (hrun : (executeAll table mustExist before).run s = .ok () reached)
      (hfail : (execute table mustExist t).run reached = .error failure final)
      (htrace : IsTrace table mustExist s (before ++ [t]) trace) :
      RunEnds table mustExist tokens s ⟨some (.atOffset failure t.offset), final, trace⟩

theorem runEnds (table : OperatorTable) (mustExist : Bool) (tokens : List Token) (s : Machine) :
    RunEnds table mustExist tokens s (runTokens table mustExist tokens s) := by
  induction tokens generalizing s with
  | nil => exact .finished s [] rfl isTrace_nil
  | cons t tokens ih =>
    rw [runTokens]
    cases h : (execute table mustExist t).run s with
    | error failure final =>
      exact .failed [] tokens t s final failure _ rfl rfl h isTrace_singleton
    | ok _ s' =>
      simp only
      generalize hrest : runTokens table mustExist tokens s' = rest
      have hends := ih s'
      rw [hrest] at hends
      cases hends with
      | finished reached trace hrun htrace =>
        exact .finished reached _ ((executeAll_cons h).trans hrun) (isTrace_cons h htrace)
      | failed before after t' reached final failure trace htokens hrun hfail htrace =>
        exact .failed (t :: before) after t' reached final failure _ (by rw [htokens]; rfl)
          ((executeAll_cons h).trans hrun) hfail (isTrace_cons h htrace)

/-! ## What every token keeps -/

section

variable {table : OperatorTable} {mustExist : Bool} {P : Machine → Prop}
  {Q : Machine → Failure → Prop} {s : Machine}

/-- What holds at the start and is kept by every token holds where all tokens are executed. -/
theorem executeAll_induction
    (hstep : ∀ t s s', P s → (execute table mustExist t).run s = .ok () s' → P s')
    {tokens : List Token} {s s' : Machine} (hs : P s)
    (h : (executeAll table mustExist tokens).run s = .ok () s') : P s' := by
  induction tokens generalizing s with
  | nil => cases h; exact hs
  | cons t tokens ih =>
    cases ht : (execute table mustExist t).run s with
    | ok _ reached =>
      rw [executeAll_cons ht] at h
      exact ih (hstep t s reached hs ht) h
    | error failure final =>
      simp only [executeAll, List.forM_eq_forM, List.forM_cons, EStateM.run_bind, ht] at h
      cases h

/-- What is left at the end: `P` if there was no failure, and what the failure has made of it if
there was one. -/
def Leaves (P : Machine → Prop) (Q : Machine → Failure → Prop) (s : Machine) :
    Option Diagnostic → Prop
  | none => P s
  | some d => Q s d.failure

theorem leaves_runTokens
    (hstep : ∀ t s s', P s → (execute table mustExist t).run s = .ok () s' → P s')
    (hfail : ∀ t s failure s', P s → (execute table mustExist t).run s = .error failure s' →
      Q s' failure)
    (hs : P s) (tokens : List Token) :
    Leaves P Q (runTokens table mustExist tokens s).machine
      (runTokens table mustExist tokens s).failure := by
  have hends := runEnds table mustExist tokens s
  generalize runTokens table mustExist tokens s = run at hends ⊢
  cases hends with
  | finished reached trace hrun => exact executeAll_induction hstep hs hrun
  | failed before after t reached final failure trace htokens hrun ht =>
    exact hfail t reached failure final (executeAll_induction hstep hs hrun) ht

/-- Where all tokens are executed, the lexer has the last word. -/
theorem Leaves.or {failure refusal : Option Diagnostic} (h : Leaves P Q s failure)
    (hrefusal : ∀ s d, P s → refusal = some d → Q s d.failure) :
    Leaves P Q s (failure.or refusal) := by
  cases failure with
  | some d => exact h
  | none =>
    cases refusal with
    | none => exact h
    | some d => exact hrefusal s d h rfl

variable (table mustExist) in
/-- **What every token keeps** is true at the end of a text, whatever has ended it. -/
theorem leaves_runText
    (hstep : ∀ t s s', P s → (execute table mustExist t).run s = .ok () s' → P s')
    (hfail : ∀ t s failure s', P s → (execute table mustExist t).run s = .error failure s' →
      Q s' failure)
    (hrefusal : ∀ s (d : Diagnostic), P s → d.IsRefusal → Q s d.failure)
    (hs : P s) (capacity : Nat) (text : String) :
    Leaves P Q (runText table capacity mustExist text s).machine
      (runText table capacity mustExist text s).failure := by
  unfold runText
  split
  · next reason hlexer => exact hrefusal s reason hs (Lexer.isRefusal_of_ofText hlexer)
  · exact (leaves_runTokens hstep hfail hs _).or fun s d hs hd =>
      hrefusal s d hs (Lexer.isRefusal_of_drain hd)

end

section

variable {table : OperatorTable} {mustExist : Bool} {P : Machine → Prop}
  (hstep : ∀ t s result, P s → Executed table mustExist t s result → P (Effect.stateOf result))
include hstep

/-- What every token keeps, whether it fails or not, is true at the end of a run over tokens. -/
theorem runTokens_induction {s : Machine} (hs : P s) (tokens : List Token) :
    P (runTokens table mustExist tokens s).machine := by
  induction tokens generalizing s with
  | nil => exact hs
  | cons t tokens ih =>
    have hreached := hstep t s _ hs (executed table mustExist t s)
    rw [runTokens]
    cases h : (execute table mustExist t).run s with
    | ok _ s' =>
      rw [h] at hreached
      exact ih hreached
    | error failure final =>
      rw [h] at hreached
      exact hreached

/-- So it is at the end of a text. -/
theorem runText_induction {s : Machine} (hs : P s) (capacity : Nat) (text : String) :
    P (runText table capacity mustExist text s).machine := by
  unfold runText
  split
  · exact hs
  · exact runTokens_induction hstep hs _

end

/-! ## An evaluation -/

namespace Calculator

variable (c : Calculator) (text : String) (mustExist : Bool)

theorem failure_evaluate : (c.evaluate text mustExist).1.failure
    = (runText c.table c.config.capacity mustExist text c.machine).failure := rfl

theorem machine_evaluate : (c.evaluate text mustExist).2.machine
    = (runText c.table c.config.capacity mustExist text c.machine).machine.dropLoose := rfl

end Calculator

end ReversePolish
