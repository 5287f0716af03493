import ReversePolish.Proofs.Evaluation.Reached
import ReversePolish.Proofs.Lexing.Strings
/-!
# Where a failure is noticed

A failure carries the byte offset of the token that was being handled: the token that could not be
read, or the one that was read and whose execution failed. The offset is that of the first character
of the token, which is no blank, so it never falls inside a character.

One failure is told from a place further on. An escape that does not exist is refused at its
backslash and not at the quote that begins the string (`Lexer.position_of_badEscape`). So the
position of a failure is where its token begins if and only if it is not of this kind, see
`evaluate_position`.
-/

namespace ReversePolish

/-! ## Places in a text -/

/-- A character stands at the byte offset `p`, and it is no blank. -/
def Text.HasNonblankAt (text : List Char) (p : Nat) : Prop :=
  ∃ front c back, text = front ++ c :: back ∧ p = byteLength front ∧ isBlank c = false

/-- What the lexer comes to next is a string with an escape that does not exist. What is in front of
the escape are the opening quote and `items`. -/
def Cursor.BadEscape (c : Cursor) (items : List Char) : Prop :=
  ∃ contents back, Quoted.Items items contents ∧ Quoted.Stray back ∧
    c.skipBlanks.rest = '"' :: (items ++ back)

/-! ## What the lexer finds -/

namespace Lexeme

variable {c after : Cursor} {start : Cursor} {t : Token} {d : Diagnostic} {text : List Char}

theorem offset_of_reference {kind : TokenKind} (h : reference start kind text = .token t after) :
    t.offset = start.offset := by
  simp only [reference] at h
  split at h <;> cases h
  rfl

theorem position_of_reference {kind : TokenKind} (h : reference start kind text = .failed d) :
    d.position = some start.offset := by
  simp only [reference] at h
  split at h <;> cases h
  rfl

theorem offset_of_numeric {first : Char} (h : numeric start first text = .token t after) :
    t.offset = start.offset := by
  simp only [numeric] at h
  split at h
  · split at h <;> cases h <;> rfl
  · cases h
    rfl

theorem position_of_numeric {first : Char} (h : numeric start first text = .failed d) :
    d.position = some start.offset := by
  simp only [numeric] at h
  split at h
  · split at h <;> cases h
    rfl
  · cases h

theorem offset_of_quoted (h : quoted start text = .token t after) : t.offset = start.offset := by
  unfold quoted at h
  split at h <;> cases h
  rfl

/-- **A token carries the offset** at which it begins. -/
theorem offset_of_first (h : first c = .token t after) : t.offset = c.skipBlanks.offset := by
  simp only [first] at h
  split at h
  · cases h
  · exact offset_of_quoted h
  · exact offset_of_reference h
  · exact offset_of_reference h
  · split at h
    · exact offset_of_numeric h
    · cases h
      rfl

/-- What cannot be read is refused where it begins, unless it is a string. -/
theorem position_of_first (hquote : ∀ inside, c.skipBlanks.rest ≠ '"' :: inside)
    (h : first c = .failed d) : d.position = some c.skipBlanks.offset := by
  simp only [first] at h
  split at h
  · cases h
  · next hs => exact absurd hs (hquote _)
  · exact position_of_reference h
  · exact position_of_reference h
  · split at h
    · exact position_of_numeric h
    · cases h

/-- Whatever is found begins with a character that is no blank. -/
theorem exists_cons_of_first (h : first c ≠ .finished) :
    ∃ head tail, c.skipBlanks.rest = head :: tail ∧ Text.isBlank head = false := by
  cases hs : c.skipBlanks.rest with
  | nil =>
    refine absurd ?_ h
    simp only [first, hs]
  | cons head tail => exact ⟨head, tail, rfl, isBlank_of_skipBlanks hs⟩

end Lexeme

namespace Lexer

section

variable {l : Lexer} {item : Except Diagnostic Token} {t : Token} {d : Diagnostic}
  {items : List Char}

/-- A call that gives something has found it from a lexer that has not stopped. -/
theorem first_of_next (h : l.next.1 = some item) :
    l.done = false ∧ match item with
      | .ok t => ∃ after, Lexeme.first l.cursor = .token t after
      | .error d => Lexeme.first l.cursor = .failed d := by
  unfold next at h
  split at h
  · cases h
  · next hd =>
    refine ⟨by simpa using hd, ?_⟩
    split at h
    · cases h
    · next hfirst =>
      cases h
      exact hfirst
    · next hfirst =>
      cases h
      exact ⟨_, hfirst⟩

/-- **A bad escape** is refused at its backslash. -/
theorem position_of_badEscape (hopen : l.done = false) (h : l.cursor.BadEscape items) :
    l.next.1 = some (.error (.atOffset (.processing .unknownToken)
      (l.cursor.skipBlanks.offset + Text.byteLength ('"' :: items)))) := by
  obtain ⟨contents, back, hitems, hback, hquote⟩ := h
  exact next_of_stray hopen hquote hitems hback rfl

/-- A call that fails for any other reason fails where its token begins. -/
theorem position_of_next (h : l.next.1 = some (.error d))
    (hescape : ∀ items, ¬l.cursor.BadEscape items) :
    d.position = some l.cursor.skipBlanks.offset := by
  obtain ⟨hopen, hfirst⟩ := first_of_next h
  by_cases hquote : ∃ inside, l.cursor.skipBlanks.rest = '"' :: inside
  · obtain ⟨inside, hquote⟩ := hquote
    rcases next_string_cases hopen hquote with ⟨_, _, _, _, _, hnext⟩ | ⟨_, _, hnext⟩
      | ⟨items, contents, back, hitems, hback, hinside, -⟩
    · cases hnext.symm.trans h
    · cases hnext.symm.trans h
      rfl
    · rw [hinside] at hquote
      exact absurd ⟨contents, back, hitems, hback, hquote⟩ (hescape items)
  · exact Lexeme.position_of_first (fun inside hs => hquote ⟨inside, hs⟩) hfirst

end

/-! ## Calls -/

/-- The call of `next` that comes after `k` others has a token of `text` in front of it, and the
first character of this token is at the byte offset `p`. -/
structure BeginsAt (text : String) (k p : Nat) : Prop where
  running : ((start text).advance k).done = false
  offset : ((start text).advance k).cursor.skipBlanks.offset = p
  nonblank : Text.HasNonblankAt text.toList p

/-- How the failure `d` of the token of the `k`-th call, which begins at `p`, is placed. -/
structure Places (text : String) (k p : Nat) (d : Diagnostic) : Prop where
  begins : BeginsAt text k p
  /-- The position is that of a character which is no blank, in any case. -/
  nonblank : ∃ q, d.position = some q ∧ Text.HasNonblankAt text.toList q
  /-- It is that of the first character of the token, unless there is a bad escape. -/
  atStart : d.position = some p ↔ ∀ items, ¬((start text).advance k).cursor.BadEscape items
  /-- A bad escape is placed at its backslash. -/
  atEscape : ∀ items, ((start text).advance k).cursor.BadEscape items →
    d = .atOffset (.processing .unknownToken) (p + Text.byteLength ('"' :: items))

section

variable {text : String} {k p : Nat} {t : Token} {d : Diagnostic} {items : List Char}

/-- Whatever a call gives, it has a token in front of it. -/
theorem beginsAt_of_yield? {item : Except Diagnostic Token}
    (h : (start text).yield? k = some item) :
    BeginsAt text k ((start text).advance k).cursor.skipBlanks.offset := by
  obtain ⟨hopen, hfirst⟩ := first_of_next h
  have hfound : Lexeme.first ((start text).advance k).cursor ≠ .finished := by
    intro hfinished
    cases item with
    | ok t =>
      obtain ⟨after, hfirst⟩ := hfirst
      cases hfinished.symm.trans hfirst
    | error d => cases hfinished.symm.trans hfirst
  obtain ⟨head, tail, hrest, hblank⟩ := Lexeme.exists_cons_of_first hfound
  obtain ⟨front, htext, hoffset⟩ := exists_front hopen
  rw [hrest] at htext
  exact ⟨hopen, rfl, front, head, tail, htext, hoffset, hblank⟩

/-- A bad escape is a character of the text, behind the place at which its string begins. -/
theorem nonblank_of_badEscape (hopen : ((start text).advance k).done = false)
    (h : ((start text).advance k).cursor.BadEscape items) :
    Text.HasNonblankAt text.toList
      (((start text).advance k).cursor.skipBlanks.offset + Text.byteLength ('"' :: items)) := by
  obtain ⟨contents, back, -, ⟨tail, hback, -⟩, hrest⟩ := h
  obtain ⟨front, htext, hoffset⟩ := exists_front hopen
  refine ⟨front ++ '"' :: items, '\\', tail, ?_, ?_, by decide⟩
  · rw [htext, hrest, hback, List.append_assoc, List.cons_append]
  · rw [hoffset, Text.byteLength_append]

/-- **What cannot be read** is placed where it begins, or at its bad escape. -/
theorem places_of_refused (h : (start text).yield? k = some (.error d)) :
    ∃ p, Places text k p d := by
  have hbegins := beginsAt_of_yield? h
  refine ⟨_, hbegins, ?_, ?_, ?_⟩
  · by_cases hescape : ∃ items, ((start text).advance k).cursor.BadEscape items
    · obtain ⟨items, hescape⟩ := hescape
      cases (position_of_badEscape hbegins.running hescape).symm.trans h
      exact ⟨_, rfl, nonblank_of_badEscape hbegins.running hescape⟩
    · exact ⟨_, position_of_next h fun items hitems => hescape ⟨items, hitems⟩, hbegins.nonblank⟩
  · constructor
    · intro hposition items hescape
      -- the backslash is behind the quote, so it is not where the string begins
      cases (position_of_badEscape hbegins.running hescape).symm.trans h
      have hquote : 0 < ('"' : Char).utf8Size := by decide
      simp only [Diagnostic.atOffset, Option.some.injEq, Text.byteLength_cons] at hposition
      omega
    · exact position_of_next h
  · intro items hescape
    cases (position_of_badEscape hbegins.running hescape).symm.trans h
    rfl

/-- **A token that is read** carries the place at which it begins, so that is where its failure is
placed. -/
theorem places_of_token (h : (start text).yield? k = some (.ok t)) (failure : Failure) :
    ∃ p, Places text k p (.atOffset failure t.offset) := by
  have hbegins := beginsAt_of_yield? h
  obtain ⟨-, after, hfirst⟩ := first_of_next h
  have hoffset := Lexeme.offset_of_first hfirst
  -- a string with a bad escape is not read
  have hread : ∀ items, ¬((start text).advance k).cursor.BadEscape items := by
    intro items hescape
    cases (position_of_badEscape hbegins.running hescape).symm.trans h
  have hposition : (Diagnostic.atOffset failure t.offset).position
      = some ((start text).advance k).cursor.skipBlanks.offset :=
    congrArg some hoffset
  exact ⟨_, hbegins, ⟨_, hposition, hbegins.nonblank⟩, ⟨fun _ => hread, fun _ => hposition⟩,
    fun items hescape => absurd hescape (hread items)⟩

end

/-! ## Tokens of a run and calls -/

/-- A lexer that has stopped does not go on. -/
theorem done_advance {l : Lexer} (h : l.done = true) (n : Nat) : (l.advance n).done = true := by
  induction n generalizing l with
  | zero => exact h
  | succ n ih =>
    have hnext : l.next.2.done = true := by
      rw [next, if_pos h]
      exact h
    exact ih hnext

theorem yield?_of_token {l : Lexer} {k : Nat} {t : Token} (h : l.drain.tokens[k]? = some t) :
    l.yield? k = some (.ok t) := by
  have hk := (List.getElem?_eq_some_iff.1 h).1
  rw [yield?_eq, ← drain_eq, Yield.items, List.getElem?_append_left (by simpa using hk),
    List.getElem?_map, h]
  rfl

/-- The failure of the lexer is what the call behind the last token gives. -/
theorem yield?_of_failure {l : Lexer} {d : Diagnostic} (h : l.drain.failure = some d) :
    l.yield? l.drain.tokens.length = some (.error d) := by
  rw [yield?_eq, ← drain_eq, Yield.items, h, List.getElem?_append_right (by simp)]
  simp

end Lexer

/-! ## A text -/

/-- The evaluation of `text` from the state `s` on comes to the token of the `k`-th call of the
lexer, all tokens in front of it being executed, and fails there with `d`. -/
inductive FailsAt (table : OperatorTable) (mustExist : Bool) (text : String) (s : Machine)
    (k : Nat) : Diagnostic → Prop where
  /-- The token is read, and its execution fails. -/
  | executing (t : Token) (reached final : Machine) (failure : Failure)
      (htoken : (Lexer.start text).yield? k = some (.ok t))
      (hreached : (executeAll table mustExist ((Lexer.start text).drain.tokens.take k)).run s
        = .ok () reached)
      (hfail : (execute table mustExist t).run reached = .error failure final) :
      FailsAt table mustExist text s k (.atOffset failure t.offset)
  /-- It cannot be read. -/
  | reading (d : Diagnostic) (reached : Machine)
      (hrefused : (Lexer.start text).yield? k = some (.error d))
      (hreached : (executeAll table mustExist ((Lexer.start text).drain.tokens.take k)).run s
        = .ok () reached) :
      FailsAt table mustExist text s k d

variable {table : OperatorTable} {mustExist : Bool} {text : String} {s : Machine} {k : Nat}
  {d : Diagnostic}

theorem FailsAt.places (h : FailsAt table mustExist text s k d) :
    ∃ p, Lexer.Places text k p d := by
  cases h with
  | executing t reached final failure htoken => exact Lexer.places_of_token htoken failure
  | reading d reached hrefused => exact Lexer.places_of_refused hrefused

/-- A text that is not too long fails at one of its tokens, or not at all. -/
theorem failsAt_of_runText {capacity : Nat} (hfits : text.utf8ByteSize ≤ capacity)
    (h : (runText table capacity mustExist text s).failure = some d) :
    ∃ k, FailsAt table mustExist text s k d := by
  rw [runText_eq hfits] at h
  generalize hrun : runTokens table mustExist (Lexer.start text).drain.tokens s = run at h
  have hends := runEnds table mustExist (Lexer.start text).drain.tokens s
  rw [hrun] at hends
  cases hends with
  | finished reached trace hall =>
    have hfailure : (Lexer.start text).drain.failure = some d := h
    refine ⟨_, .reading d reached (Lexer.yield?_of_failure hfailure) ?_⟩
    rw [List.take_length]
    exact hall
  | failed before after t reached final failure trace htokens hbefore hfail =>
    cases h
    have htoken : (Lexer.start text).drain.tokens[before.length]? = some t := by
      rw [htokens, List.getElem?_append_right (Nat.le_refl _), Nat.sub_self]
      rfl
    refine ⟨_, .executing t reached final failure (Lexer.yield?_of_token htoken) ?_ hfail⟩
    rw [htokens, List.take_left' rfl]
    exact hbefore

/-- **Positions are token starts**, bad escapes apart. A text that fits the capacity is read from
its beginning, and then

* whatever the lexer refuses, at whatever call, is placed by its token;
* so is every failure of the evaluation, by the token that it has come to.

The position is always that of a character of the text which is no blank. It is that of the first
character of the token, where the lexer has begun it, if and only if the token is no string with an
escape that does not exist; the position of such a string is that of the backslash. -/
theorem evaluate_position {c : Calculator} (hfits : text.utf8ByteSize ≤ c.config.capacity)
    (mustExist : Bool) :
    Lexer.ofText text c.config.capacity = .ok (Lexer.start text) ∧
      (∀ k d, (Lexer.start text).yield? k = some (.error d) → ∃ p, Lexer.Places text k p d) ∧
      (∀ d, (c.evaluate text mustExist).1.failure = some d →
        ∃ k p, FailsAt c.table mustExist text c.machine k d ∧ Lexer.Places text k p d) := by
  refine ⟨Lexer.ofText_eq hfits, fun k d h => Lexer.places_of_refused h, fun d h => ?_⟩
  rw [Calculator.failure_evaluate] at h
  obtain ⟨k, hfails⟩ := failsAt_of_runText hfits h
  obtain ⟨p, hplaces⟩ := hfails.places
  exact ⟨k, p, hfails, hplaces⟩

/-- A word behind a blank of three bytes fails with the code of a bad escape, and is placed at its
first character. -/
theorem evaluate_position_word :
    let c := Calculator.new {}
    let text := "7i\u20031ex"
    let d := Diagnostic.atOffset (.processing .unknownToken) 5
    text.utf8ByteSize ≤ c.config.capacity ∧ (c.evaluate text false).1.failure = some d ∧
      ∃ k p, FailsAt c.table false text c.machine k d ∧ Lexer.Places text k p d := by
  intro c text d
  have hfits : text.utf8ByteSize ≤ c.config.capacity := by decide
  have hdrain : (Lexer.start text).drain =
      ⟨[⟨.number (.integer 7), "7i", 0⟩, ⟨.word, "1ex", 5⟩], none, ⟨⟨8, []⟩, true⟩⟩ := by cbv
  have hfails : (c.evaluate text false).1.failure = some d := by
    rw [Calculator.failure_evaluate, runText_eq hfits, hdrain]
    rfl
  obtain ⟨-, -, hplaces⟩ := evaluate_position hfits false
  exact ⟨hfits, hfails, hplaces d hfails⟩

/-- A string that begins at the start of the text is refused at its fourth character, and no token
of the text begins there. -/
theorem evaluate_position_escape :
    let c := Calculator.new {}
    let text := "\"ab\\q\""
    let d := Diagnostic.atOffset (.processing .unknownToken) 3
    text.utf8ByteSize ≤ c.config.capacity ∧ (c.evaluate text false).1.failure = some d ∧
      Lexer.BeginsAt text 0 0 ∧ ∀ k p, Lexer.BeginsAt text k p → d.position ≠ some p := by
  intro c text d
  have hfits : text.utf8ByteSize ≤ c.config.capacity := by decide
  have hread : Quoted.read "ab\\q\"".toList = .badEscape "\\q\"".toList := by cbv
  have hlex : Plain.lexFrom 0 text.toList = [.error d] := by
    rw [show text.toList = '"' :: "ab\\q\"".toList from by decide, Plain.lexFrom_quote, hread]
    rfl
  have hdrain : (Lexer.start text).drain.tokens = [] ∧ (Lexer.start text).drain.failure = some d :=
    Lexer.Yield.eq_of_items (by rw [Lexer.items_drain_start, hlex]; rfl)
  have hfails : (c.evaluate text false).1.failure = some d := by
    rw [Calculator.failure_evaluate, runText_eq hfits, hdrain.1, hdrain.2]
    rfl
  have hrefused : (Lexer.start text).yield? 0 = some (.error d) := by
    have hfailure := Lexer.yield?_of_failure hdrain.2
    rwa [hdrain.1] at hfailure
  have hstart : ((Lexer.start text).advance 0).cursor.skipBlanks.offset = 0 := by decide
  have hbegins := Lexer.beginsAt_of_yield? hrefused
  rw [hstart] at hbegins
  refine ⟨hfits, hfails, hbegins, fun k p hbegins => ?_⟩
  cases k with
  | zero =>
    rw [← hbegins.offset, hstart]
    decide
  | succ k =>
    -- the first call has stopped the lexer for good
    have hdone : (Lexer.start text).next.2.done = true := by
      apply Lexer.done_next
      intro t ht
      cases ht.symm.trans hrefused
    have hstopped : ((Lexer.start text).advance (k + 1)).done = true := Lexer.done_advance hdone k
    cases hstopped.symm.trans hbegins.running

end ReversePolish
