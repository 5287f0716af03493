import ReversePolish.Proofs.Evaluation.Append
/-!
# The tokens that a run comes to

A run comes to a token when all tokens in front of it are executed, and it comes to it in the state
that they have led to. A token that fails then ends the run, and a run that fails has come to the
token that it fails at. A text adds to this what refuses it as a whole or ends it behind its last
token, see `textReaches_of_failure`.
-/

namespace ReversePolish

/-- Whether a token is the word `w`, and not a string, a name or a part of a longer word. -/
def Token.isWord (t : Token) (w : String) : Bool := t.kind == .word && t.text == w

namespace Token

theorem isWord_iff {t : Token} {w : String} :
    t.isWord w = true ↔ t.kind = .word ∧ t.text = w := by
  simp [isWord]

/-- A word is only one word. -/
theorem isWord_of_ne {t : Token} {v w : String} (hne : v ≠ w) (h : t.isWord v = true) :
    t.isWord w = false := by
  obtain ⟨-, htext⟩ := isWord_iff.1 h
  simp [isWord, htext, hne]

end Token

/-! ## Runs -/

/-- A run over `tokens` from the state `s` on comes to the token `t`, in the state `reached`. -/
inductive Reaches (table : OperatorTable) (mustExist : Bool) :
    List Token → Machine → Token → Machine → Prop where
  | here (t : Token) (tokens : List Token) (s : Machine) :
      Reaches table mustExist (t :: tokens) s t s
  | later {t u : Token} {tokens : List Token} {s s' reached : Machine}
      (h : (execute table mustExist t).run s = .ok () s')
      (hrest : Reaches table mustExist tokens s' u reached) :
      Reaches table mustExist (t :: tokens) s u reached

/-- The evaluation of a text comes to the token `t`, in the state `reached`. -/
structure TextReaches (table : OperatorTable) (capacity : Nat) (mustExist : Bool) (text : String)
    (s : Machine) (t : Token) (reached : Machine) : Prop where
  fits : text.utf8ByteSize ≤ capacity
  reaches : Reaches table mustExist (Lexer.start text).drain.tokens s t reached

variable {table : OperatorTable} {capacity : Nat} {mustExist : Bool} {tokens : List Token}
  {text : String} {s reached final : Machine} {t : Token} {failure : Failure} {d : Diagnostic}

theorem Reaches.mem (h : Reaches table mustExist tokens s t reached) : t ∈ tokens := by
  induction h with
  | here => exact List.mem_cons_self
  | later _ _ ih => exact List.mem_cons_of_mem _ ih

/-- A token that fails ends the run that comes to it. -/
theorem Reaches.stops (h : Reaches table mustExist tokens s t reached)
    (hfail : (execute table mustExist t).run reached = .error failure final) :
    (runTokens table mustExist tokens s).failure = some (.atOffset failure t.offset) ∧
      (runTokens table mustExist tokens s).machine = final := by
  induction h with
  | here t tokens s =>
    simp only [runTokens, hfail]
    exact ⟨trivial, trivial⟩
  | later hstep _ ih =>
    simp only [runTokens, hstep]
    exact ih hfail

/-- A run that fails has come to the token that it fails at. -/
theorem reaches_of_failure (h : (runTokens table mustExist tokens s).failure = some d) :
    ∃ t reached failure, Reaches table mustExist tokens s t reached ∧
      (execute table mustExist t).run reached
        = .error failure (runTokens table mustExist tokens s).machine ∧
      d = .atOffset failure t.offset := by
  induction tokens generalizing s with
  | nil => cases h
  | cons t tokens ih =>
    cases hstep : (execute table mustExist t).run s with
    | error failure final =>
      simp only [runTokens, hstep] at h ⊢
      exact ⟨t, s, failure, .here t tokens s, hstep, (Option.some.inj h).symm⟩
    | ok _ s' =>
      simp only [runTokens, hstep] at h ⊢
      obtain ⟨u, reached, failure, hreaches, hfail, hd⟩ := ih h
      exact ⟨u, reached, failure, .later hstep hreaches, hfail, hd⟩

/-! ## A text -/

theorem TextReaches.stops (h : TextReaches table capacity mustExist text s t reached)
    (hfail : (execute table mustExist t).run reached = .error failure final) :
    (runText table capacity mustExist text s).failure = some (.atOffset failure t.offset) ∧
      (runText table capacity mustExist text s).machine = final := by
  obtain ⟨hfailure, hmachine⟩ := h.reaches.stops hfail
  rw [runText_eq h.fits]
  exact ⟨by simp only [hfailure, Option.some_or], hmachine⟩

/-- **What fails a text** is a token that it comes to, or it cannot be read. -/
theorem textReaches_of_failure
    (h : (runText table capacity mustExist text s).failure = some d) :
    (∃ t reached failure, TextReaches table capacity mustExist text s t reached ∧
      (execute table mustExist t).run reached
        = .error failure (runText table capacity mustExist text s).machine ∧
      d = .atOffset failure t.offset) ∨ d.IsRefusal := by
  by_cases hfits : text.utf8ByteSize ≤ capacity
  · rw [runText_eq hfits] at h ⊢
    rcases Option.or_eq_some_iff.1 h with hrun | ⟨-, hlexer⟩
    · obtain ⟨t, reached, failure, hreaches, hfail, hd⟩ := reaches_of_failure hrun
      exact .inl ⟨t, reached, failure, ⟨hfits, hreaches⟩, hfail, hd⟩
    · exact .inr (Lexer.isRefusal_of_drain hlexer)
  · rw [runText_refused hfits] at h
    cases h
    exact .inr ⟨_, _, rfl, .inr (.inr rfl)⟩

/-- A text that comes to its end has executed all of its tokens. -/
theorem executeAll_of_runText (h : (runText table capacity mustExist text s).failure = none) :
    (executeAll table mustExist (Lexer.start text).drain.tokens).run s
      = .ok () (runText table capacity mustExist text s).machine := by
  by_cases hfits : text.utf8ByteSize ≤ capacity
  · rw [runText_eq hfits] at h ⊢
    have hends := runEnds table mustExist (Lexer.start text).drain.tokens s
    simp only at h ⊢
    generalize runTokens table mustExist (Lexer.start text).drain.tokens s = run at h hends ⊢
    cases hends with
    | finished reached trace hrun => exact hrun
    | failed => cases h
  · rw [runText_refused hfits] at h
    cases h

end ReversePolish
