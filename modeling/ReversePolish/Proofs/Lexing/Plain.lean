import Mathlib
import ReversePolish.Proofs.Lexing.Outline
import ReversePolish.Proofs.Lexing.Quoted
/-!
# The lexer cuts at blanks

The plain way to cut a text into tokens: skip blanks; read a quoted string where there is a quote;
otherwise take the characters up to the next blank, whatever they are, and decide from them alone
what they mean. No character is watched and none is looked at twice.

`yield?_eq` says that the lexer does just that, call by call: the `n`-th call of `Lexer.next` gives
the `n`-th item of `Plain.lex`, and nothing once the items are used up. `drain_eq` says the same of
the tokens that a run is made of.
-/

namespace ReversePolish

/-! ## The plain lexer -/

namespace Plain

/-- The reference to the variable `name`, whose sigil is at the byte offset `p`. -/
def reference (kind : TokenKind) (name : List Char) (p : Nat) : Except Diagnostic Token :=
  if name.isEmpty then .error (.atOffset (.processing .invalidToken) p)
  else .ok ⟨kind, String.ofList name, p⟩

/-- What a run of characters at the byte offset `p` means. -/
def classify (run : List Char) (p : Nat) : Except Diagnostic Token :=
  match run with
  | '&' :: name => reference .reference name p
  | '$' :: name => reference .boundReference name p
  | run =>
    match Number.parse? run with
    | some (.ok n) => .ok ⟨.number n, String.ofList run, p⟩
    | some (.error code) => .error (.atOffset (.processing code) p)
    | none => .ok ⟨.word, String.ofList run, p⟩

/-- An item and those behind it, unless it is a failure, behind which there is nothing. -/
def followedBy (item : Except Diagnostic Token) (more : List (Except Diagnostic Token)) :
    List (Except Diagnostic Token) :=
  match item with
  | .ok t => .ok t :: more
  | .error reason => [.error reason]

/-- The tokens of a text that begins at the byte offset `p`, up to the first failure. -/
def lexFrom (p : Nat) : List Char → List (Except Diagnostic Token)
  | [] => []
  | c :: rest =>
    if hc : Text.isBlank c then lexFrom (p + c.utf8Size) rest
    else if c = '"' then
      match h : Quoted.read rest with
      | .closed contents after =>
        have := Quoted.length_lt_of_read h
        followedBy (.ok ⟨.string, String.ofList contents, p⟩)
          (lexFrom (p + 1 + (Text.byteLength rest - Text.byteLength after)) after)
      | .unclosed => [.error (.atOffset (.processing .invalidToken) p)]
      | .badEscape after =>
        [.error (.atOffset (.processing .unknownToken)
          (p + 1 + (Text.byteLength rest - Text.byteLength after)))]
    else
      have : ((c :: rest).dropWhile fun c => !Text.isBlank c).length ≤ rest.length := by
        simpa [hc] using length_dropWhile_le _ rest
      let run := (c :: rest).takeWhile fun c => !Text.isBlank c
      let after := (c :: rest).dropWhile fun c => !Text.isBlank c
      followedBy (classify run p) (lexFrom (p + Text.byteLength run) after)
termination_by text => text.length

/-- The tokens of a text, up to the first failure. -/
def lex (text : String) : List (Except Diagnostic Token) := lexFrom 0 text.toList

end Plain

/-! ## One item -/

/-- Moving to an end of what follows the next character passes that character and what is in front
of the end. -/
theorem Cursor.offset_moveTo {start : Cursor} {c : Char} {tail after : List Char}
    (hs : start.rest = c :: tail) (ha : after <:+ tail) :
    (start.moveTo after).offset
      = start.offset + c.utf8Size + (Text.byteLength tail - Text.byteLength after) := by
  obtain ⟨passed, rfl⟩ := ha
  simp only [moveTo, hs, Text.byteLength_cons, Text.byteLength_append]
  omega

namespace Plain

theorem lexFrom_of_isBlank {c : Char} (hc : Text.isBlank c = true) (p : Nat) (rest : List Char) :
    lexFrom p (c :: rest) = lexFrom (p + c.utf8Size) rest := by
  rw [lexFrom, dif_pos hc]

/-- Blanks in front count for the offset and for nothing else. -/
theorem lexFrom_skipBlanks (c : Cursor) :
    lexFrom c.offset c.rest = lexFrom c.skipBlanks.offset c.skipBlanks.rest := by
  have key : ∀ (text : List Char) (p : Nat), lexFrom p text =
      lexFrom (p + Text.byteLength (text.takeWhile Text.isBlank))
        (text.dropWhile Text.isBlank) := by
    intro text
    induction text with
    | nil => intro p; rfl
    | cons c rest ih =>
      intro p
      by_cases hc : Text.isBlank c = true
      · rw [lexFrom_of_isBlank hc, ih]
        simp [hc, Nat.add_assoc]
      · simp [hc]
  have hsplit : c.rest = c.rest.takeWhile Text.isBlank ++ c.rest.dropWhile Text.isBlank :=
    List.takeWhile_append_dropWhile.symm
  rw [key c.rest c.offset, Cursor.skipBlanks, Cursor.moveTo_of_append hsplit]

theorem lexFrom_quote (p : Nat) (inside : List Char) :
    lexFrom p ('"' :: inside) =
      match Quoted.read inside with
      | .closed contents after =>
        followedBy (.ok ⟨.string, String.ofList contents, p⟩)
          (lexFrom (p + 1 + (Text.byteLength inside - Text.byteLength after)) after)
      | .unclosed => [.error (.atOffset (.processing .invalidToken) p)]
      | .badEscape after =>
        [.error (.atOffset (.processing .unknownToken)
          (p + 1 + (Text.byteLength inside - Text.byteLength after)))] := by
  rw [lexFrom, dif_neg (by decide), if_pos rfl]
  split <;> simp_all

theorem lexFrom_run {c : Char} (hc : Text.isBlank c = false) (hq : c ≠ '"') (p : Nat)
    (tail : List Char) :
    lexFrom p (c :: tail) = followedBy (classify (c :: (readRun tail).1) p)
      (lexFrom (p + Text.byteLength (c :: (readRun tail).1)) (readRun tail).2) := by
  rw [lexFrom, dif_neg (by simp [hc]), if_neg hq]
  simp [readRun, hc]

/-- A run that starts like a number is no reference: the grammar decides alone. -/
theorem classify_of_startsNumber {first : Char} (hf : Lexeme.startsNumber first = true)
    (tail : List Char) (p : Nat) :
    classify (first :: tail) p
      = match Number.parse? (first :: tail) with
        | some (.ok n) => .ok ⟨.number n, String.ofList (first :: tail), p⟩
        | some (.error code) => .error (.atOffset (.processing code) p)
        | none => .ok ⟨.word, String.ofList (first :: tail), p⟩ := by
  unfold classify
  split
  · next h => cases h; cases hf
  · next h => cases h; cases hf
  · rfl

end Plain

namespace Lexeme

/-- What the plain lexer makes of the text once it has found the lexeme. -/
def items : Lexeme → List (Except Diagnostic Token)
  | .finished => []
  | .failed reason => [.error reason]
  | .token t after => .ok t :: Plain.lexFrom after.offset after.rest

theorem items_quoted {start : Cursor} {inside : List Char} (hs : start.rest = '"' :: inside) :
    (quoted start inside).items = Plain.lexFrom start.offset ('"' :: inside) := by
  have hquote : ('"' : Char).utf8Size = 1 := rfl
  rw [Plain.lexFrom_quote, quoted]
  cases hr : Quoted.read inside with
  | closed contents after =>
    have hsuffix : after <:+ inside := Quoted.suffix_of_read (by rw [hr]; rfl)
    simp only [items, Plain.followedBy, Cursor.offset_moveTo hs hsuffix, hquote]
    rfl
  | unclosed => rfl
  | badEscape after =>
    have hsuffix : after <:+ inside := Quoted.suffix_of_read (by rw [hr]; rfl)
    simp only [items, fail, Cursor.offset_moveTo hs hsuffix, hquote]

/-- A token made of the run at a place leaves the text behind the run. -/
theorem items_token_run {start : Cursor} {first : Char} {tail : List Char}
    (hs : start.rest = first :: tail) (t : Token) :
    (Lexeme.token t (start.moveTo (readRun tail).2)).items
      = .ok t :: Plain.lexFrom (start.offset + Text.byteLength (first :: (readRun tail).1))
          (readRun tail).2 := by
  have hsplit : start.rest = (first :: (readRun tail).1) ++ (readRun tail).2 := by
    rw [hs, List.cons_append]
    exact congrArg _ List.takeWhile_append_dropWhile.symm
  rw [items, Cursor.moveTo_of_append hsplit]

theorem items_reference {start : Cursor} {sigil : Char} {tail : List Char}
    (hs : start.rest = sigil :: tail) (kind : TokenKind) :
    (reference start kind tail).items
      = Plain.followedBy (Plain.reference kind (readRun tail).1 start.offset)
          (Plain.lexFrom (start.offset + Text.byteLength (sigil :: (readRun tail).1))
            (readRun tail).2) := by
  by_cases hname : (readRun tail).1 = []
  · simp [reference, Plain.reference, Plain.followedBy, hname, fail, items]
  · simp [reference, Plain.reference, Plain.followedBy, hname, items_token_run hs]

/-- **The run decides alone**: what the outline made of a token is what the grammar makes of the
whole of it. -/
theorem items_numeric {start : Cursor} {first : Char} {tail : List Char}
    (hs : start.rest = first :: tail) (hf : startsNumber first = true) :
    (numeric start first tail).items
      = Plain.followedBy (Plain.classify (first :: (readRun tail).1) start.offset)
          (Plain.lexFrom (start.offset + Text.byteLength (first :: (readRun tail).1))
            (readRun tail).2) := by
  simp only [numeric, Outline.readRun_eq, Plain.classify_of_startsNumber hf]
  split
  · cases hp : Number.parse? (first :: (readRun tail).1) with
    | none => exact items_token_run hs _
    | some result =>
      cases result with
      | ok n => exact items_token_run hs _
      | error code => rfl
  · next hreject =>
    -- the grammar rejects what the outline gave up on, so both see a word
    have hnone : Number.parse? (first :: (readRun tail).1) = none :=
      Classical.byContradiction fun hne => hreject (Outline.allowsRun_of_parse? hne).2
    rw [hnone]
    exact items_token_run hs _

theorem items_word {start : Cursor} {first : Char} {tail : List Char}
    (hs : start.rest = first :: tail) (hb : Text.isBlank first = false)
    (hr : first ≠ '&') (hd : first ≠ '$') (hf : startsNumber first = false) :
    (word start).items
      = Plain.followedBy (Plain.classify (first :: (readRun tail).1) start.offset)
          (Plain.lexFrom (start.offset + Text.byteLength (first :: (readRun tail).1))
            (readRun tail).2) := by
  have hnone : Number.parse? (first :: (readRun tail).1) = none := by
    refine Classical.byContradiction fun hne => ?_
    rw [(Outline.allowsRun_of_parse? hne).1] at hf
    cases hf
  have hclass : Plain.classify (first :: (readRun tail).1) start.offset
      = .ok ⟨.word, String.ofList (first :: (readRun tail).1), start.offset⟩ := by
    unfold Plain.classify
    split
    · next h => cases h; exact absurd rfl hr
    · next h => cases h; exact absurd rfl hd
    · rw [hnone]
  have hrun : readRun start.rest = (first :: (readRun tail).1, (readRun tail).2) := by
    rw [hs, Outline.readRun_cons tail (by simp [hb])]
  rw [hclass, word, hrun]
  exact items_token_run hs _

/-- **One step of the lexer is one item** of the plain lexer. -/
theorem items_first (c : Cursor) : (first c).items = Plain.lexFrom c.offset c.rest := by
  rw [Plain.lexFrom_skipBlanks, first]
  split
  · next hs => rw [hs, Plain.lexFrom]; rfl
  · next hs => rw [hs, items_quoted hs]
  · next name hs =>
    rw [hs, items_reference hs, Plain.lexFrom_run (isBlank_of_skipBlanks hs) (by decide)]
    rfl
  · next name hs =>
    rw [hs, items_reference hs, Plain.lexFrom_run (isBlank_of_skipBlanks hs) (by decide)]
    rfl
  · next head tail hq hr hd hs =>
    have hb := isBlank_of_skipBlanks hs
    rw [hs, Plain.lexFrom_run hb hq]
    split
    · next hf => exact items_numeric hs hf
    · next hf =>
      exact items_word hs hb hr hd (by simpa using hf)

end Lexeme

/-! ## Where a step leaves the lexer -/

/-- Moving from one place to the other passes some characters, and counts their bytes. -/
def Cursor.Passes (c : Cursor) (passed : List Char) (after : Cursor) : Prop :=
  c.rest = passed ++ after.rest ∧ after.offset = c.offset + Text.byteLength passed

theorem Cursor.Passes.trans {c mid after : Cursor} {front back : List Char}
    (hfront : c.Passes front mid) (hback : mid.Passes back after) :
    c.Passes (front ++ back) after :=
  ⟨by rw [hfront.1, hback.1, List.append_assoc],
    by rw [hback.2, hfront.2, Text.byteLength_append, Nat.add_assoc]⟩

theorem Cursor.passes_moveTo {c : Cursor} {rest : List Char} (h : rest <:+ c.rest) :
    ∃ passed, c.Passes passed (c.moveTo rest) := by
  obtain ⟨passed, hp⟩ := h
  exact ⟨passed, hp.symm, by rw [moveTo_of_append hp.symm]⟩

theorem Cursor.passes_skipBlanks (c : Cursor) : ∃ blanks, c.Passes blanks c.skipBlanks :=
  passes_moveTo (List.dropWhile_suffix Text.isBlank)

/-- The run behind the first character of a place leaves an end of the place. -/
theorem Lexeme.suffix_of_readRun {start : Cursor} {first : Char} {tail : List Char}
    (hs : start.rest = first :: tail) : (readRun tail).2 <:+ start.rest := by
  rw [hs]
  exact (List.dropWhile_suffix _).trans (List.suffix_cons ..)

theorem Lexeme.after_of_reference {start after : Cursor} {kind : TokenKind} {sigil : Char}
    {name : List Char} {t : Token} (hs : start.rest = sigil :: name)
    (h : reference start kind name = .token t after) :
    ∃ rest, rest <:+ start.rest ∧ after = start.moveTo rest := by
  simp only [reference] at h
  split at h
  · cases h
  · cases h
    exact ⟨_, suffix_of_readRun hs, rfl⟩

/-- Behind a token the lexer stands at an end of what it had in front of it. -/
theorem Lexeme.after_of_first {c after : Cursor} {t : Token} (h : first c = .token t after) :
    ∃ rest, rest <:+ c.skipBlanks.rest ∧ after = c.skipBlanks.moveTo rest := by
  simp only [first] at h
  split at h
  · cases h
  · next inside hs =>
    unfold quoted at h
    split at h
    · next contents rest hr =>
      cases h
      refine ⟨rest, ?_, rfl⟩
      rw [hs]
      exact (Quoted.suffix_of_read (by rw [hr]; rfl)).trans (List.suffix_cons ..)
    · cases h
    · cases h
  · next name hs => exact after_of_reference hs h
  · next name hs => exact after_of_reference hs h
  · next head tail _ _ _ hs =>
    split at h
    · simp only [numeric, Outline.readRun_eq] at h
      split at h
      · split at h <;> cases h <;> exact ⟨_, suffix_of_readRun hs, rfl⟩
      · cases h
        exact ⟨_, suffix_of_readRun hs, rfl⟩
    · cases h
      exact ⟨_, List.dropWhile_suffix _, rfl⟩

/-- Every token passes at least one character. -/
theorem Lexeme.passes_of_first {c after : Cursor} {t : Token} (h : first c = .token t after) :
    ∃ passed, passed ≠ [] ∧ c.Passes passed after := by
  obtain ⟨blanks, hblanks⟩ := c.passes_skipBlanks
  obtain ⟨rest, hrest, rfl⟩ := after_of_first h
  obtain ⟨passed, hpassed⟩ := Cursor.passes_moveTo hrest
  have hwhole := hblanks.trans hpassed
  have hlength := length_lt_of_first h
  refine ⟨blanks ++ passed, fun hnil => ?_, hwhole⟩
  have hsame := hwhole.1
  rw [hnil, List.nil_append] at hsame
  rw [← hsame] at hlength
  exact Nat.lt_irrefl _ hlength

/-! ## All calls -/

/-- The run of characters in front of a blank or the end of the text is read as a whole. -/
theorem readRun_append {run rest : List Char} (hrun : ∀ c ∈ run, Text.isBlank c = false)
    (hrest : rest.head?.all Text.isBlank = true) : readRun (run ++ rest) = (run, rest) := by
  have hrest' : readRun rest = ([], rest) := by
    cases rest with
    | nil => rfl
    | cons c rest => exact Outline.readRun_cons_of_isBlank rest (by simpa using hrest)
  induction run with
  | nil => exact hrest'
  | cons c run ih =>
    have hc : ¬Text.isBlank c = true := by simp [hrun c List.mem_cons_self]
    rw [List.cons_append, Outline.readRun_cons _ hc, ih fun d hd => hrun d (by simp [hd])]

/-- A text without blanks is one run. -/
theorem readRun_eq_self {run : List Char} (hrun : ∀ c ∈ run, Text.isBlank c = false) :
    readRun run = (run, []) := by
  have hwhole : readRun (run ++ []) = (run, []) := readRun_append hrun rfl
  rwa [List.append_nil] at hwhole

namespace Lexer

/-- The lexer after `n` calls of `next`. -/
def advance (l : Lexer) : Nat → Lexer
  | 0 => l
  | n + 1 => l.next.2.advance n

/-- What the call of `next` gives that comes after `n` others. -/
def yield? (l : Lexer) (n : Nat) : Option (Except Diagnostic Token) := (l.advance n).next.1

/-- What the plain lexer finds in what a lexer has in front of it. -/
def items (l : Lexer) : List (Except Diagnostic Token) :=
  if l.done then [] else Plain.lexFrom l.cursor.offset l.cursor.rest

/-- The tokens in order, and the failure behind them. -/
def Yield.items (y : Yield) : List (Except Diagnostic Token) :=
  y.tokens.map .ok ++ y.failure.toList.map .error

/-- A call that gives no token is the last one that gives anything. -/
theorem done_next {l : Lexer} (h : ∀ t, l.next.1 ≠ some (.ok t)) : l.next.2.done = true := by
  unfold next at h ⊢
  split
  · next hd => exact hd
  · next hd =>
    cases hf : Lexeme.first l.cursor with
    | finished => rfl
    | failed reason => rfl
    | token t after => simp [hd, hf] at h

theorem items_of_done {l : Lexer} (h : l.done = true) : l.items = [] := if_pos h

/-- A call of `next` takes one item, if there is one. -/
theorem items_next (l : Lexer) : l.items = l.next.1.toList ++ l.next.2.items := by
  unfold next
  split
  · next hd => simp [items, hd]
  · next hd =>
    have hfirst := Lexeme.items_first l.cursor
    rw [items, if_neg hd, ← hfirst]
    cases Lexeme.first l.cursor <;> rfl

theorem items_eq_nil_of_next {l : Lexer} (h : l.next.1 = none) : l.items = [] := by
  rw [items_next, h, items_of_done (done_next fun t => by rw [h]; simp)]
  rfl

/-- **Call by call the lexer is the plain one.** -/
theorem yield?_eq (l : Lexer) (n : Nat) : l.yield? n = l.items[n]? := by
  induction n generalizing l with
  | zero =>
    show l.next.1 = l.items[0]?
    cases hn : l.next.1 with
    | none => rw [items_eq_nil_of_next hn]; rfl
    | some item => rw [items_next, hn]; rfl
  | succ n ih =>
    show l.next.2.yield? n = l.items[n + 1]?
    rw [ih]
    cases hn : l.next.1 with
    | none =>
      rw [items_eq_nil_of_next hn, items_of_done (done_next fun t => by rw [hn]; simp)]
      rfl
    | some item =>
      rw [items_next l, hn]
      rfl

theorem yield?_add (l : Lexer) (n m : Nat) : l.yield? (n + m) = (l.advance n).yield? m := by
  induction n generalizing l with
  | zero => rw [Nat.zero_add]; rfl
  | succ n ih =>
    rw [Nat.succ_add]
    exact ih l.next.2

theorem advance_succ (l : Lexer) (n : Nat) : l.advance (n + 1) = (l.advance n).next.2 := by
  induction n generalizing l with
  | zero => rfl
  | succ n ih => exact ih l.next.2

/-- A call gives a token and passes some characters, or it stops the lexer. -/
theorem passes_or_done (l : Lexer) :
    match l.next.1 with
    | some (.ok _) => ∃ passed, passed ≠ [] ∧ l.cursor.Passes passed l.next.2.cursor
    | _ => l.next.2.done = true := by
  split
  · next t ht =>
    unfold next at ht ⊢
    split at ht
    · cases ht
    · next hd =>
      cases hf : Lexeme.first l.cursor with
      | finished => simp [hf] at ht
      | failed reason => simp [hf] at ht
      | token t' after =>
        rw [if_neg hd]
        exact Lexeme.passes_of_first hf
  · next hn => exact done_next fun t ht => hn t ht

/-- A lexer that has not stopped has passed what it had in front of it at the start. -/
theorem passes_advance {l : Lexer} {n : Nat} (h : (l.advance n).done = false) :
    ∃ passed, l.cursor.Passes passed (l.advance n).cursor := by
  induction n with
  | zero => exact ⟨[], rfl, rfl⟩
  | succ n ih =>
    rw [advance_succ] at h ⊢
    have hopen : (l.advance n).done = false := by
      cases hd : (l.advance n).done with
      | false => rfl
      | true =>
        rw [next, if_pos hd] at h
        exact hd.symm.trans h
    have hstep := passes_or_done (l.advance n)
    split at hstep
    · obtain ⟨passed, -, hpassed⟩ := hstep
      obtain ⟨front, hfront⟩ := ih hopen
      exact ⟨front ++ passed, hfront.trans hpassed⟩
    · rw [hstep] at h
      cases h

/-- **The tokens of a run** and its failure are what the plain lexer finds. -/
theorem drain_eq (l : Lexer) : l.drain.items = l.items := by
  fun_induction drain l with
  | case1 l after hn =>
    rw [items_next, hn]
    simp [Yield.items, items_of_done (l := after) (by simpa [hn] using done_next (l := l))]
  | case2 l reason after hn =>
    rw [items_next, hn]
    simp [Yield.items, items_of_done (l := after) (by simpa [hn] using done_next (l := l))]
  | case3 l t after hn _ rest ih =>
    rw [items_next, hn, ← ih]
    rfl

end Lexer

/-! ## Offsets -/

/-- A byte offset that does not fall inside a character. -/
def Text.IsBoundary (text : List Char) (p : Nat) : Prop :=
  ∃ front back, text = front ++ back ∧ p = byteLength front

namespace Plain

/-- The offset that an item carries. -/
def offset? : Except Diagnostic Token → Option Nat
  | .ok t => some t.offset
  | .error reason => reason.position

theorem mem_followedBy {item other : Except Diagnostic Token}
    {more : List (Except Diagnostic Token)} (h : other ∈ followedBy item more) :
    other = item ∨ other ∈ more := by
  cases item with
  | ok t => exact List.mem_cons.1 h
  | error reason => exact .inl (List.mem_singleton.1 h)

/-- Whatever a run means, it carries the offset of the run. -/
theorem offset?_classify (run : List Char) (p : Nat) : offset? (classify run p) = some p := by
  have hreference : ∀ kind name, offset? (reference kind name p) = some p := by
    intro kind name
    unfold reference
    split <;> rfl
  unfold classify
  split
  · exact hreference _ _
  · exact hreference _ _
  · split <;> rfl

/-- Every item carries the offset of a place between two characters. -/
theorem offset?_of_mem {p : Nat} {text : List Char} {item : Except Diagnostic Token}
    (h : item ∈ lexFrom p text) :
    ∃ front back, text = front ++ back ∧ offset? item = some (p + Text.byteLength front) := by
  have hquote : ('"' : Char).utf8Size = 1 := rfl
  fun_induction lexFrom p text with
  | case1 => cases h
  | case2 p c rest _ ih =>
    obtain ⟨front, back, rfl, hoffset⟩ := ih h
    exact ⟨c :: front, back, rfl, by rw [hoffset]; simp [Nat.add_assoc]⟩
  | case3 p rest contents after hr _ _ ih =>
    have hsuffix : after <:+ rest := Quoted.suffix_of_read (by rw [hr]; rfl)
    obtain ⟨passed, rfl⟩ := hsuffix
    rcases mem_followedBy h with rfl | h
    · exact ⟨[], _, rfl, rfl⟩
    · obtain ⟨front, back, rfl, hoffset⟩ := ih h
      refine ⟨'"' :: (passed ++ front), back, by simp, ?_⟩
      rw [hoffset]
      simp only [Text.byteLength_cons, Text.byteLength_append, hquote, Option.some.injEq]
      omega
  | case4 p rest _ =>
    obtain rfl := List.mem_singleton.1 h
    exact ⟨[], _, rfl, rfl⟩
  | case5 p rest after hr =>
    have hsuffix : after <:+ rest := Quoted.suffix_of_read (by rw [hr]; rfl)
    obtain ⟨passed, rfl⟩ := hsuffix
    obtain rfl := List.mem_singleton.1 h
    refine ⟨'"' :: passed, after, rfl, ?_⟩
    simp only [offset?, Diagnostic.atOffset, Text.byteLength_cons, Text.byteLength_append, hquote,
      Option.some.injEq]
    omega
  | case6 p c rest hc hq _ run after ih =>
    have hsplit : c :: rest = run ++ after := List.takeWhile_append_dropWhile.symm
    rcases mem_followedBy h with rfl | h
    · exact ⟨[], _, rfl, offset?_classify run p⟩
    · obtain ⟨front, back, hafter, hoffset⟩ := ih h
      refine ⟨run ++ front, back, by rw [hsplit, hafter, List.append_assoc], ?_⟩
      rw [hoffset, Text.byteLength_append, Nat.add_assoc]

/-! ## Numbers -/

/-- A run that means a number is a literal of that number. -/
theorem parse?_of_classify {run : List Char} {p : Nat} {t : Token} {n : Number}
    (h : classify run p = .ok t) (hn : t.kind = .number n) :
    Number.parse? t.text.toList = some (.ok n) := by
  have hreference : ∀ kind name, kind ≠ .number n → reference kind name p ≠ .ok t := by
    intro kind name hkind hreference
    unfold reference at hreference
    split at hreference
    · cases hreference
    · cases hreference
      exact hkind hn
  unfold classify at h
  split at h
  · exact absurd h (hreference _ _ (by simp))
  · exact absurd h (hreference _ _ (by simp))
  · split at h
    · next m hparse =>
      cases h
      cases hn
      rwa [String.toList_ofList]
    · cases h
    · cases h
      cases hn

/-- The text of every number is a literal of it. -/
theorem parse?_of_mem {p : Nat} {text : List Char} {t : Token} {n : Number}
    (h : .ok t ∈ lexFrom p text) (hn : t.kind = .number n) :
    Number.parse? t.text.toList = some (.ok n) := by
  fun_induction lexFrom p text with
  | case1 => cases h
  | case2 p c rest _ ih => exact ih h
  | case3 p rest contents after hr _ _ ih =>
    rcases mem_followedBy h with hstring | h
    · cases hstring
      cases hn
    · exact ih h
  | case4 p rest _ => cases List.mem_singleton.1 h
  | case5 p rest after hr => cases List.mem_singleton.1 h
  | case6 p c rest hc hq _ run after ih =>
    rcases mem_followedBy h with hrun | h
    · exact parse?_of_classify hrun.symm hn
    · exact ih h

end Plain

/-! ## The lexer and the plain lexer -/

/-- **The lexer is the plain one.** A text that fits the capacity is accepted, and then

* the calls of `next` give the items of `Plain.lex` one after the other and nothing behind them,
  and the tokens that a run executes are the same items;
* whatever grammar and outline say of a run of characters without blanks, the outline allows it if
  the grammar accepts it, wherever the run stands;
* every item carries the offset of a place between two characters;
* a call that gives a token passes at least one character, any other call stops the lexer;
* behind a call that gave no token no call gives anything. -/
theorem yield?_eq_plain (text : String) (capacity : Nat) (h : text.utf8ByteSize ≤ capacity) :
    ∃ l, Lexer.ofText text capacity = .ok l ∧
      (∀ n, l.yield? n = (Plain.lex text)[n]?) ∧
      l.drain.items = Plain.lex text ∧
      (∀ first tail rest, (∀ c ∈ first :: tail, Text.isBlank c = false) →
        rest.head?.all Text.isBlank = true → Number.parse? (first :: tail) ≠ none →
        Lexeme.startsNumber first = true ∧
          (({} : Outline).extend first).readRun (tail ++ rest) = (true, tail, rest)) ∧
      (∀ item ∈ Plain.lex text, ∃ p, Plain.offset? item = some p ∧
        Text.IsBoundary text.toList p) ∧
      (∀ n, match l.yield? n with
        | some (.ok _) => ∃ passed, passed ≠ [] ∧
            (l.advance n).cursor.Passes passed (l.advance (n + 1)).cursor
        | _ => (l.advance (n + 1)).done = true) ∧
      (∀ n m, (∀ t, l.yield? n ≠ some (.ok t)) → n < m → l.yield? m = none) := by
  refine ⟨⟨⟨0, text.toList⟩, false⟩, ?_, ?_, ?_, ?_, ?_, ?_, ?_⟩
  · simp [Lexer.ofText, Nat.not_lt.2 h]
  · intro n
    exact Lexer.yield?_eq _ n
  · exact Lexer.drain_eq _
  · intro first tail rest hrun hrest hparse
    obtain ⟨hfirst, hallow⟩ := Outline.allowsRun_of_parse? hparse
    have htail : readRun (tail ++ rest) = (tail, rest) :=
      readRun_append (fun c hc => hrun c (by simp [hc])) hrest
    refine ⟨hfirst, ?_⟩
    rw [Outline.readRun_eq, htail, hallow]
  · intro item hitem
    obtain ⟨front, back, htext, hoffset⟩ := Plain.offset?_of_mem hitem
    exact ⟨_, hoffset, front, back, htext, Nat.zero_add _⟩
  · intro n
    rw [Lexer.advance_succ]
    exact Lexer.passes_or_done _
  · intro n m hn hnm
    obtain ⟨k, rfl⟩ := Nat.exists_eq_add_of_lt hnm
    rw [Nat.add_right_comm n k 1, Lexer.yield?_add, Lexer.advance_succ, Lexer.yield?_eq,
      Lexer.items_of_done (Lexer.done_next hn)]
    rfl

/-- A word of two bytes, a run that is given up on at its end, an integer, and a sigil without a
name. -/
theorem yield?_eq_plain_mixed :
    "é 1ex 7u &".utf8ByteSize ≤ 11 ∧
      ∃ l, Lexer.ofText "é 1ex 7u &" 11 = .ok l ∧
        ∀ n, l.yield? n = ([.ok ⟨.word, "é", 0⟩, .ok ⟨.word, "1ex", 3⟩,
          .ok ⟨.number (.unsigned 7), "7u", 7⟩,
          .error (.atOffset (.processing .invalidToken) 10)] :
            List (Except Diagnostic Token))[n]? := by
  have hfits : "é 1ex 7u &".utf8ByteSize ≤ 11 := by decide
  have hlex : Plain.lex "é 1ex 7u &" = [.ok ⟨.word, "é", 0⟩, .ok ⟨.word, "1ex", 3⟩,
      .ok ⟨.number (.unsigned 7), "7u", 7⟩,
      .error (.atOffset (.processing .invalidToken) 10)] := by cbv
  obtain ⟨l, hl, hyield, -⟩ := yield?_eq_plain "é 1ex 7u &" 11 hfits
  exact ⟨hfits, l, hl, fun n => by rw [hyield, hlex]⟩

end ReversePolish
