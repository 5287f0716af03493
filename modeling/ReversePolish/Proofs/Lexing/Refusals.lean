import ReversePolish.Token.Lexer
/-!
# What stops the lexer

A text that the lexer cannot read on is refused at the byte offset of what it cannot read: with
`invalidToken` a string that is not closed, a reference without a name and a number that does not
fit, and with `unknownToken` an escape that does not exist. A text that is too long is refused as a
whole. There is no other failure.
-/

namespace ReversePolish

/-- The failures of the lexer. -/
def Diagnostic.IsRefusal (d : Diagnostic) : Prop :=
  ∃ code position, d = .atOffset (.processing code) position ∧
    (code = .invalidToken ∨ code = .unknownToken ∨ code = .inputBufferOverflow)

theorem Numeral.value_error {l : Numeral} {code : ProcessingError} (h : l.value = .error code) :
    code = .invalidToken := by
  unfold value at h
  split at h
  · cases h
  · dsimp only at h
    split at h
    · cases h
      rfl
    · split at h <;> split at h <;> cases h <;> rfl

theorem Number.parse?_error {text : List Char} {code : ProcessingError}
    (h : parse? text = some (.error code)) : code = .invalidToken := by
  unfold parse? at h
  split at h
  · exact Numeral.value_error (Option.some.inj h)
  · cases h

namespace Lexeme

theorem isRefusal_fail {code : ProcessingError} {position : Nat} {d : Diagnostic}
    (hcode : code = .invalidToken ∨ code = .unknownToken) (h : fail code position = .failed d) :
    d.IsRefusal := by
  cases h
  exact ⟨code, position, rfl, hcode.imp_right .inl⟩

theorem isRefusal_of_quoted {start : Cursor} {inside : List Char} {d : Diagnostic}
    (h : quoted start inside = .failed d) : d.IsRefusal := by
  unfold quoted at h
  split at h
  · cases h
  · exact isRefusal_fail (.inl rfl) h
  · exact isRefusal_fail (.inr rfl) h

theorem isRefusal_of_reference {start : Cursor} {kind : TokenKind} {name : List Char}
    {d : Diagnostic} (h : reference start kind name = .failed d) : d.IsRefusal := by
  simp only [reference] at h
  split at h
  · exact isRefusal_fail (.inl rfl) h
  · cases h

theorem isRefusal_of_numeric {start : Cursor} {first : Char} {tail : List Char} {d : Diagnostic}
    (h : numeric start first tail = .failed d) : d.IsRefusal := by
  simp only [numeric] at h
  split at h
  · split at h
    · cases h
    · next hparse => exact isRefusal_fail (.inl (Number.parse?_error hparse)) h
    · cases h
  · cases h

theorem isRefusal_of_first {c : Cursor} {d : Diagnostic} (h : first c = .failed d) :
    d.IsRefusal := by
  simp only [first] at h
  split at h
  · cases h
  · exact isRefusal_of_quoted h
  · exact isRefusal_of_reference h
  · exact isRefusal_of_reference h
  · split at h
    · exact isRefusal_of_numeric h
    · cases h

end Lexeme

namespace Lexer

theorem isRefusal_of_ofText {text : String} {capacity : Nat} {d : Diagnostic}
    (h : ofText text capacity = .error d) : d.IsRefusal := by
  unfold ofText at h
  split at h
  · cases h
    exact ⟨_, _, rfl, .inr (.inr rfl)⟩
  · cases h

theorem isRefusal_of_next {l after : Lexer} {d : Diagnostic}
    (h : l.next = (some (.error d), after)) : d.IsRefusal := by
  unfold next at h
  split at h
  · cases h
  · split at h
    · cases h
    · next hfirst =>
      cases h
      exact Lexeme.isRefusal_of_first hfirst
    · cases h

/-- **What ends a run of the lexer** before the end of the text is a refusal. -/
theorem isRefusal_of_drain {l : Lexer} {d : Diagnostic} (h : l.drain.failure = some d) :
    d.IsRefusal := by
  fun_induction drain l with
  | case1 => cases h
  | case2 l reason after hnext =>
    cases h
    exact isRefusal_of_next hnext
  | case3 l t after _ _ rest ih => exact ih h

end Lexer

end ReversePolish
