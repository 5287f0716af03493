import Mathlib
import ReversePolish.Proofs.Evaluation.Executed
import ReversePolish.Proofs.Operator.Outcome
/-!
# What a failed evaluation leaves behind

An evaluation stops at its first failure. Nothing is undone, and there is next to nothing to undo:
an operator that refuses its operands has not touched them, and neither has a token that cannot be
resolved. So a failed evaluation leaves what the tokens in front of the failing one have made of
the state, apart from two operators that say by their failure what they have done. `end` has taken
its operand when it stops, and an operator that computes an error value has put it on the stack.
-/

namespace ReversePolish

/-- How a token stops a run that has come to the state `reached`: with which failure, and in which
state. -/
inductive Halts (table : OperatorTable) (t : Token) (reached : Machine) :
    Failure → Machine → Prop where
  /-- The token was refused, and nothing has changed. -/
  | untouched (failure : Failure)
      (hend : ¬(t.kind = .word ∧ t.text = "end" ∧ failure = .operator .cannotContinue))
      (hrefused : ∀ op s', t.kind = .word → table.find? t.text = some op →
        op.apply.run reached ≠ .ok () s') :
      Halts table t reached failure reached
  /-- `end` has taken the top slot. -/
  | ended (top : Slot) (rest : List Slot) (hkind : t.kind = .word) (htext : t.text = "end")
      (hactive : reached.stack.active = top :: rest) :
      Halts table t reached (.operator .cannotContinue) (reached.withActive rest)
  /-- An operator has done its work and left an error value on top. -/
  | spoiled (op : Operator) (code : ValueError) (final : Machine) (hkind : t.kind = .word)
      (hoperator : table.find? t.text = some op) (h : op.apply.run reached = .ok () final)
      (htop : final.stack.TopError code) :
      Halts table t reached (.value code) final

variable {lib : ElementaryFunctions} {mustExist : Bool} {t : Token} {reached final : Machine}
  {failure : Failure}

/-- An operator that fails has changed nothing, unless it is `end`. -/
theorem Halts.of_failed {op : Operator} (hkind : t.kind = .word)
    (hoperator : (OperatorTable.standard lib).find? t.text = some op)
    (h : op.apply.run reached = .error failure final) :
    Halts (.standard lib) t reached failure final := by
  have hname : op.name = t.text := (outcome_of_find? hoperator reached).1
  have houtcome := Outcome.of_run hoperator h
  -- the table has one operator of a name, and this one has failed
  have hrefused : ∀ op' s', t.kind = .word →
      (OperatorTable.standard lib).find? t.text = some op' → op'.apply.run reached ≠ .ok () s' := by
    intro op' s' _ hoperator' hok
    rw [hoperator] at hoperator'
    cases hoperator'
    rw [h] at hok
    cases hok
  cases houtcome with
  | short => exact .untouched _ (by simp) hrefused
  | refused _ _ _ hstop =>
    refine .untouched _ ?_ hrefused
    rintro ⟨-, htext, hcode⟩
    have hend : op.name = "end" := hname.trans htext
    exact hstop hend hcode
  | stopped top rest hend hactive => exact .ended top rest hkind (hname.symm.trans hend) hactive

/-- With the standard table, a token that fails halts the run in one of these ways. -/
theorem halts_of_execute
    (h : (execute (.standard lib) mustExist t).run reached = .error failure final) :
    Halts (.standard lib) t reached failure final := by
  cases Executed.of_run h with
  | missing hkind =>
    refine .untouched _ (by simp) ?_
    intro op s' hword
    rcases hkind with hkind | ⟨hkind, -⟩ <;> simp [hkind] at hword
  | unopened hkind htext =>
    refine .untouched _ (by simp) ?_
    intro op s' _ hoperator
    exact absurd htext (OperatorTable.ne_bracket_of_find? hoperator).2
  | unresolved code hkind hoperator =>
    refine .untouched _ (by simp) ?_
    intro op s' _ hoperator'
    rw [hoperator] at hoperator'
    cases hoperator'
  | failed op _ _ hkind hoperator hfail => exact .of_failed hkind hoperator hfail
  | spoiled op code _ hkind hoperator hok htop =>
    exact .spoiled op code final hkind hoperator hok htop

/-! ## A text -/

/-- How the evaluation of a text whose tokens are `found` stops with the failure `d`: in the state
`final`, and with the records `trace`. -/
inductive Stops (table : OperatorTable) (mustExist : Bool) (found : Lexer.Yield) (s : Machine)
    (d : Diagnostic) : Machine → List Trace → Prop where
  /-- All tokens are executed, and then the lexer fails. -/
  | unread (reached : Machine) (trace : List Trace) (hfailure : found.failure = some d)
      (hrun : (executeAll table mustExist found.tokens).run s = .ok () reached)
      (htrace : IsTrace table mustExist s found.tokens trace) :
      Stops table mustExist found s d reached trace
  /-- The `k` tokens in front of the token `t` are executed, and then `t` fails. -/
  | halted (k : Nat) (t : Token) (reached final : Machine) (failure : Failure) (trace : List Trace)
      (ht : found.tokens[k]? = some t)
      (hrun : (executeAll table mustExist (found.tokens.take k)).run s = .ok () reached)
      (hfail : (execute table mustExist t).run reached = .error failure final)
      (hhalts : Halts table t reached failure final) (hd : d = .atOffset failure t.offset)
      (htrace : IsTrace table mustExist s (found.tokens.take (k + 1)) trace) :
      Stops table mustExist found s d final trace

theorem stops_of_runTokens {found : Lexer.Yield} {s : Machine} {d : Diagnostic}
    (h : (runTokens (.standard lib) mustExist found.tokens s).failure.or found.failure = some d) :
    Stops (.standard lib) mustExist found s d
      (runTokens (.standard lib) mustExist found.tokens s).machine
      (runTokens (.standard lib) mustExist found.tokens s).trace := by
  generalize hrun : runTokens (.standard lib) mustExist found.tokens s = run at h ⊢
  have hends := runEnds (.standard lib) mustExist found.tokens s
  rw [hrun] at hends
  cases hends with
  | finished reached trace hall htrace => exact .unread reached trace h hall htrace
  | failed before after t reached final failure trace htokens hbefore hfail htrace =>
    have ht : found.tokens[before.length]? = some t := by
      rw [htokens, List.getElem?_append_right (Nat.le_refl _), Nat.sub_self]
      rfl
    have hfront : found.tokens.take before.length = before := by
      rw [htokens]
      exact List.take_left' rfl
    have hseen : found.tokens.take (before.length + 1) = before ++ [t] := by
      rw [htokens, List.append_cons]
      exact List.take_left' (by simp)
    rw [← hfront] at hbefore
    rw [← hseen] at htrace
    exact .halted before.length t reached final failure trace ht hbefore hfail
      (halts_of_execute hfail) (Option.some.inj h).symm htrace

/-- **A failed evaluation leaves the state of the tokens in front of the failure**, but for its
loose variables, and but for the slot that `end` has taken or the error value that an operator has
pushed. It records the tokens up to the one that failed, and it is the failure that the calculator
remembers. -/
theorem evaluate_stops {c : Calculator} {text : String} {d : Diagnostic}
    (htable : c.table = .standard lib) (hlength : text.utf8ByteSize ≤ c.config.capacity)
    (h : (c.evaluate text mustExist).1.failure = some d) :
    ∃ final,
      Stops c.table mustExist (Lexer.drain ⟨⟨0, text.toList⟩, false⟩) c.machine d final
        (c.evaluate text mustExist).1.trace ∧
      (c.evaluate text mustExist).2.machine = final.dropLoose ∧
      (c.evaluate text mustExist).2.failure = some d := by
  have hlexer : Lexer.ofText text c.config.capacity = .ok ⟨⟨0, text.toList⟩, false⟩ :=
    if_neg (Nat.not_lt.2 hlength)
  simp only [Calculator.evaluate, runText, hlexer, htable] at h ⊢
  exact ⟨_, stops_of_runTokens h, rfl, h⟩

/-- `end` stops a text after two tokens. -/
theorem evaluate_stops_at_end :
    ((Calculator.new {}).evaluate "7i 0i end" false).1.failure
        = some (.atOffset (.operator .cannotContinue) 6) ∧
      ∃ final,
        Stops (Calculator.new {}).table false (Lexer.drain ⟨⟨0, "7i 0i end".toList⟩, false⟩)
          (Calculator.new {}).machine (.atOffset (.operator .cannotContinue) 6) final
          ((Calculator.new {}).evaluate "7i 0i end" false).1.trace ∧
        ((Calculator.new {}).evaluate "7i 0i end" false).2.machine = final.dropLoose ∧
        ((Calculator.new {}).evaluate "7i 0i end" false).2.failure
          = some (.atOffset (.operator .cannotContinue) 6) := by
  have hfits : "7i 0i end".utf8ByteSize ≤ 256 := by decide
  have hlexer : Lexer.ofText "7i 0i end" 256 = .ok ⟨⟨0, "7i 0i end".toList⟩, false⟩ :=
    if_neg (Nat.not_lt.2 hfits)
  have hdrain : Lexer.drain ⟨⟨0, "7i 0i end".toList⟩, false⟩ =
      ⟨[⟨.number (.integer 7), "7i", 0⟩, ⟨.number (.integer 0), "0i", 3⟩, ⟨.word, "end", 6⟩], none,
        ⟨⟨9, []⟩, true⟩⟩ := by cbv
  have hfails : ((Calculator.new {}).evaluate "7i 0i end" false).1.failure
      = some (.atOffset (.operator .cannotContinue) 6) := by
    simp only [Calculator.evaluate, Calculator.new, runText, hlexer, hdrain]
    rfl
  exact ⟨hfails, evaluate_stops rfl hfits hfails⟩

end ReversePolish
