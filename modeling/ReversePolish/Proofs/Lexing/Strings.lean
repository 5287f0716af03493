import ReversePolish.Proofs.Lexing.Append
/-!
# String literals

Where the lexer comes to a quote, the grammar of what is behind the quote decides what comes of the
call: a string if items lead to a closing quote, and a failure if they lead to the end of the text
or to a backslash that starts no item. Each of the three is told from the others by what the call
gives, so each of them is also necessary for it.

Every string has a literal that is read as that string.
-/

namespace ReversePolish

/-! ## At a quote -/

namespace Lexer

theorem next_of_first_token {l : Lexer} {t : Token} {after : Cursor} (hopen : l.done = false)
    (h : Lexeme.first l.cursor = .token t after) : l.next = (some (.ok t), ⟨after, false⟩) := by
  simp only [next, hopen, h, Bool.false_eq_true, if_false]

theorem next_of_first_failed {l : Lexer} {reason : Diagnostic} (hopen : l.done = false)
    (h : Lexeme.first l.cursor = .failed reason) : l.next.1 = some (.error reason) := by
  simp only [next, hopen, h, Bool.false_eq_true, if_false]

/-- Behind a quote the lexer reads a string. -/
theorem first_of_quote {c : Cursor} {inside : List Char} (h : c.skipBlanks.rest = '"' :: inside) :
    Lexeme.first c = Lexeme.quoted c.skipBlanks inside := by
  simp only [Lexeme.first, h]

variable {l : Lexer} {inside items contents : List Char}

/-- A literal that is closed is a token, and the next one may begin right behind the quote. -/
theorem next_of_closed (hopen : l.done = false)
    (hquote : l.cursor.skipBlanks.rest = '"' :: inside) (hitems : Quoted.Items items contents)
    {rest : List Char} (hinside : inside = items ++ '"' :: rest) :
    l.next = (some (.ok ⟨.string, String.ofList contents, l.cursor.skipBlanks.offset⟩),
      ⟨⟨l.cursor.skipBlanks.offset + Text.byteLength ('"' :: items ++ ['"']), rest⟩, false⟩) := by
  have hread := Quoted.Reads.read_eq (.closed hitems hinside)
  have hpassed : l.cursor.skipBlanks.rest = ('"' :: items ++ ['"']) ++ rest := by
    rw [hquote, hinside, List.append_assoc]
    rfl
  apply next_of_first_token hopen
  simp only [first_of_quote hquote, Lexeme.quoted, hread, Cursor.moveTo_of_append hpassed]

theorem next_of_unclosed (hopen : l.done = false)
    (hquote : l.cursor.skipBlanks.rest = '"' :: inside) (hitems : Quoted.Items inside contents) :
    l.next.1 = some (.error (.atOffset (.processing .invalidToken) l.cursor.skipBlanks.offset)) := by
  have hread := Quoted.Reads.read_eq (.unclosed hitems)
  apply next_of_first_failed hopen
  simp only [first_of_quote hquote, Lexeme.quoted, hread, Lexeme.fail]

/-- A backslash that starts no escape is refused where it stands. -/
theorem next_of_stray (hopen : l.done = false)
    (hquote : l.cursor.skipBlanks.rest = '"' :: inside) (hitems : Quoted.Items items contents)
    {back : List Char} (hback : Quoted.Stray back) (hinside : inside = items ++ back) :
    l.next.1 = some (.error (.atOffset (.processing .unknownToken)
      (l.cursor.skipBlanks.offset + Text.byteLength ('"' :: items)))) := by
  have hread := Quoted.Reads.read_eq (.badEscape hitems hback hinside)
  have hpassed : l.cursor.skipBlanks.rest = ('"' :: items) ++ back := by
    rw [hquote, hinside]
    rfl
  apply next_of_first_failed hopen
  simp only [first_of_quote hquote, Lexeme.quoted, hread, Lexeme.fail,
    Cursor.moveTo_of_append hpassed]

/-- There is no other way for the call to end. -/
theorem next_string_cases (hopen : l.done = false)
    (hquote : l.cursor.skipBlanks.rest = '"' :: inside) :
    (∃ items contents rest, Quoted.Items items contents ∧ inside = items ++ '"' :: rest ∧
        l.next.1 = some (.ok ⟨.string, String.ofList contents, l.cursor.skipBlanks.offset⟩)) ∨
      (∃ contents, Quoted.Items inside contents ∧ l.next.1
        = some (.error (.atOffset (.processing .invalidToken) l.cursor.skipBlanks.offset))) ∨
      (∃ items contents back, Quoted.Items items contents ∧ Quoted.Stray back ∧
        inside = items ++ back ∧ l.next.1 = some (.error (.atOffset (.processing .unknownToken)
          (l.cursor.skipBlanks.offset + Text.byteLength ('"' :: items))))) := by
  have hreads := Quoted.reads_read inside
  generalize Quoted.read inside = outcome at hreads
  cases hreads with
  | closed hitems hinside =>
    exact .inl ⟨_, _, _, hitems, hinside, by rw [next_of_closed hopen hquote hitems hinside]⟩
  | unclosed hitems => exact .inr (.inl ⟨_, hitems, next_of_unclosed hopen hquote hitems⟩)
  | badEscape hitems hback hinside =>
    exact .inr (.inr ⟨_, _, _, hitems, hback, hinside,
      next_of_stray hopen hquote hitems hback hinside⟩)

theorem kind_of_next_at_quote (hopen : l.done = false)
    (hquote : l.cursor.skipBlanks.rest = '"' :: inside) {t : Token}
    (ht : l.next.1 = some (.ok t)) : t.kind = .string := by
  rcases next_string_cases hopen hquote with ⟨_, _, _, _, _, hnext⟩ | ⟨_, _, hnext⟩
    | ⟨_, _, _, _, _, _, hnext⟩ <;> cases hnext.symm.trans ht
  rfl

theorem string_iff_closed (hopen : l.done = false)
    (hquote : l.cursor.skipBlanks.rest = '"' :: inside) :
    (∃ t, l.next.1 = some (.ok t) ∧ t.kind = .string) ↔
      ∃ items contents rest, Quoted.Items items contents ∧ inside = items ++ '"' :: rest := by
  constructor
  · rintro ⟨t, ht, -⟩
    rcases next_string_cases hopen hquote with ⟨items, contents, rest, hitems, hinside, -⟩
      | ⟨_, _, hnext⟩ | ⟨_, _, _, _, _, _, hnext⟩
    · exact ⟨items, contents, rest, hitems, hinside⟩
    · cases hnext.symm.trans ht
    · cases hnext.symm.trans ht
  · rintro ⟨items, contents, rest, hitems, hinside⟩
    exact ⟨_, by rw [next_of_closed hopen hquote hitems hinside], rfl⟩

theorem invalidToken_iff_unclosed (hopen : l.done = false)
    (hquote : l.cursor.skipBlanks.rest = '"' :: inside) :
    l.next.1 = some (.error (.atOffset (.processing .invalidToken) l.cursor.skipBlanks.offset)) ↔
      ∃ contents, Quoted.Items inside contents := by
  constructor
  · intro ht
    rcases next_string_cases hopen hquote with ⟨_, _, _, _, _, hnext⟩ | ⟨contents, hitems, -⟩
      | ⟨_, _, _, _, _, _, hnext⟩
    · cases hnext.symm.trans ht
    · exact ⟨contents, hitems⟩
    · cases hnext.symm.trans ht
  · rintro ⟨contents, hitems⟩
    exact next_of_unclosed hopen hquote hitems

theorem unknownToken_iff_stray (hopen : l.done = false)
    (hquote : l.cursor.skipBlanks.rest = '"' :: inside) :
    (∃ q, l.next.1 = some (.error (.atOffset (.processing .unknownToken) q))) ↔
      ∃ items contents back, Quoted.Items items contents ∧ Quoted.Stray back ∧
        inside = items ++ back := by
  constructor
  · rintro ⟨q, ht⟩
    rcases next_string_cases hopen hquote with ⟨_, _, _, _, _, hnext⟩ | ⟨_, _, hnext⟩
      | ⟨items, contents, back, hitems, hback, hinside, -⟩
    · cases hnext.symm.trans ht
    · cases hnext.symm.trans ht
    · exact ⟨items, contents, back, hitems, hback, hinside⟩
  · rintro ⟨items, contents, back, hitems, hback, hinside⟩
    exact ⟨_, next_of_stray hopen hquote hitems hback hinside⟩

/-- A lexer that has not stopped has an end of the text in front of it, blanks aside, and its offset
is that of this end, counted in bytes from the start of the text. -/
theorem exists_front {text : String} {k : Nat} (hopen : ((start text).advance k).done = false) :
    ∃ front, text.toList = front ++ ((start text).advance k).cursor.skipBlanks.rest ∧
      ((start text).advance k).cursor.skipBlanks.offset = Text.byteLength front := by
  obtain ⟨passed, hpassed⟩ := passes_advance hopen
  obtain ⟨blanks, hblanks⟩ := ((start text).advance k).cursor.passes_skipBlanks
  obtain ⟨hrest, hoffset⟩ := hpassed.trans hblanks
  exact ⟨passed ++ blanks, hrest, hoffset.trans (Nat.zero_add _)⟩

/-- The quote stands where the lexer has come to. -/
theorem exists_front_of_quote {text : String} {k : Nat}
    (hopen : ((start text).advance k).done = false)
    (hquote : ((start text).advance k).cursor.skipBlanks.rest = '"' :: inside) :
    ∃ front, text.toList = front ++ '"' :: inside ∧
      ((start text).advance k).cursor.skipBlanks.offset = Text.byteLength front :=
  hquote ▸ exists_front hopen

end Lexer

/-! ## The literal of a string -/

/-- A literal that stands for a string. -/
def Quoted.literal (s : String) : String := String.ofList ('"' :: Quoted.write s.toList ++ ['"'])

theorem Lexer.drain_literal (s : String) :
    (start (Quoted.literal s)).drain.tokens = [⟨.string, s, 0⟩] ∧
      (start (Quoted.literal s)).drain.failure = none := by
  have htext : (Quoted.literal s).toList = '"' :: (Quoted.write s.toList ++ ['"']) :=
    String.toList_ofList
  have hend : ∀ p, Plain.lexFrom p [] = [] := fun p => by rw [Plain.lexFrom]
  apply drain_of_lexFrom
  rw [htext, Plain.lexFrom_quote, Quoted.read_write]
  simp only [hend, Plain.followedBy, String.ofList_toList]
  rfl

/-! ## All literals -/

/-- **String literals decode their grammar.** Wherever a lexer comes to a quote in a text, and has
`inside` behind it,

* the quote is at the byte offset `p` of the text at which it stands;
* the call gives a string if and only if `inside` starts with items that a quote follows, and no
  other token;
* the string is then what the items stand for, at the offset `p`, and the lexer goes on right behind
  the quote;
* the call fails with `invalidToken` at `p` if and only if `inside` is items up to its end;
* it fails with `unknownToken` if and only if a backslash that starts no item follows the items, and
  it fails at the offset of that backslash.

Every string has a literal that is read as the string. -/
theorem Lexer.next_string :
    (∀ (text : String) (k : Nat) (inside : List Char),
      let l := (start text).advance k
      let p := l.cursor.skipBlanks.offset
      l.done = false → l.cursor.skipBlanks.rest = '"' :: inside →
        (∃ front, text.toList = front ++ '"' :: inside ∧ p = Text.byteLength front) ∧
        ((∃ t, l.next.1 = some (.ok t) ∧ t.kind = .string) ↔
          ∃ items contents rest, Quoted.Items items contents ∧ inside = items ++ '"' :: rest) ∧
        (∀ t, l.next.1 = some (.ok t) → t.kind = .string) ∧
        (∀ items contents rest, Quoted.Items items contents → inside = items ++ '"' :: rest →
          l.next = (some (.ok ⟨.string, String.ofList contents, p⟩),
            ⟨⟨p + Text.byteLength ('"' :: items ++ ['"']), rest⟩, false⟩)) ∧
        (l.next.1 = some (.error (.atOffset (.processing .invalidToken) p)) ↔
          ∃ contents, Quoted.Items inside contents) ∧
        ((∃ q, l.next.1 = some (.error (.atOffset (.processing .unknownToken) q))) ↔
          ∃ items contents back, Quoted.Items items contents ∧ Quoted.Stray back ∧
            inside = items ++ back) ∧
        (∀ items contents back, Quoted.Items items contents → Quoted.Stray back →
          inside = items ++ back →
          l.next.1 = some (.error (.atOffset (.processing .unknownToken)
            (p + Text.byteLength ('"' :: items)))))) ∧
      (∀ s : String,
        (start (Quoted.literal s)).drain.tokens = [⟨.string, s, 0⟩] ∧
          (start (Quoted.literal s)).drain.failure = none) := by
  refine ⟨?_, drain_literal⟩
  intro text k inside l p hopen hquote
  exact ⟨exists_front_of_quote hopen hquote, string_iff_closed hopen hquote,
    fun _ ht => kind_of_next_at_quote hopen hquote ht,
    fun _ _ _ hitems hinside => next_of_closed hopen hquote hitems hinside,
    invalidToken_iff_unclosed hopen hquote, unknownToken_iff_stray hopen hquote,
    fun _ _ _ hitems hback hinside => next_of_stray hopen hquote hitems hback hinside⟩

/-- A literal behind a letter of two bytes, with a code in either case, and a number that follows
without a blank. -/
theorem Lexer.next_string_without_blank :
    let l := (start "é \"a\\x4A\\x4a\\\"\"7u").advance 1
    l.done = false ∧
      l.cursor.skipBlanks.rest = '"' :: "a\\x4A\\x4a\\\"\"7u".toList ∧
      Quoted.Items "a\\x4A\\x4a\\\"".toList ['a', 'J', 'J', '"'] ∧
      l.next = (some (.ok ⟨.string, "aJJ\"", 3⟩), ⟨⟨16, ['7', 'u']⟩, false⟩) := by
  intro l
  have hl : l = ⟨⟨2, " \"a\\x4A\\x4a\\\"\"7u".toList⟩, false⟩ := by cbv
  have hopen : l.done = false := by rw [hl]
  have hquote : l.cursor.skipBlanks.rest = '"' :: "a\\x4A\\x4a\\\"\"7u".toList := by
    rw [hl]
    decide
  have hoffset : l.cursor.skipBlanks.offset = 3 := by
    rw [hl]
    decide
  have hitems : Quoted.Items "a\\x4A\\x4a\\\"".toList ['a', 'J', 'J', '"'] :=
    .cons (.plain (by decide) (by decide))
      (.cons (.code (h := 4) (l := 10) (by decide) (by decide) (by decide))
        (.cons (.code (h := 4) (l := 10) (by decide) (by decide) (by decide))
          (.cons .quote .nil)))
  obtain ⟨-, -, -, hstring, -⟩ := next_string.1 _ 1 _ hopen hquote
  refine ⟨hopen, hquote, hitems, ?_⟩
  have hnext := hstring _ _ ['7', 'u'] hitems (by decide)
  rw [hoffset] at hnext
  exact hnext

end ReversePolish
