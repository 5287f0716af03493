import ReversePolish.Failure
import ReversePolish.Number.Numeral
import ReversePolish.Token.Basic
import ReversePolish.Token.Quoted
/-!
# The lexer

Cuts a text into tokens, from left to right. Blanks separate tokens, except that nothing need
follow the closing quote of a string. A token that starts like a number is watched character by
character: as long as it may still become a number its `Outline` allows the next character, and
once it does not, the token is a word, whatever follows.

The lexer stops for good at the end of the text and after the first failure.
-/

namespace ReversePolish

/-- A place in a text: its byte offset, and what follows it. -/
structure Cursor where
  offset : Nat
  rest : List Char
  deriving DecidableEq, Repr

namespace Cursor

/-- The place where only `rest`, an end of the present rest, is left. -/
def moveTo (c : Cursor) (rest : List Char) : Cursor :=
  ⟨c.offset + (Text.byteLength c.rest - Text.byteLength rest), rest⟩

/-- The next place that is not at a blank. -/
def skipBlanks (c : Cursor) : Cursor := c.moveTo (c.rest.dropWhile Text.isBlank)

/-- Moving on past `passed` adds its bytes to the offset. -/
theorem moveTo_of_append {c : Cursor} {passed rest : List Char} (h : c.rest = passed ++ rest) :
    c.moveTo rest = ⟨c.offset + Text.byteLength passed, rest⟩ := by
  simp [moveTo, h]

end Cursor

/-! ## Numbers, character by character -/

/-- What has been seen of a token that may be a number (`Shape`). -/
structure Outline where
  digits : Bool := false
  point : Bool := false
  exponent : Bool := false
  suffix : Bool := false
  last : Option Char := none
  deriving DecidableEq, Repr

namespace Outline

/-- Whether the token may still be a number with `c` added to it (`Shape.accepts`). A suffix must
end the token, so it depends on the character `next` behind `c`. -/
def allows (s : Outline) (c : Char) (next : Option Char) : Bool :=
  if s.suffix then false
  else if Numeral.isDigit c then true
  else match c with
    | '.' => !s.point && !s.exponent
    | 'e' | 'E' => s.digits && !s.exponent
    | '+' | '-' => s.last == some 'e' || s.last == some 'E'
    | 'i' | 'u' => s.digits && next.all Text.isBlank
    | _ => false

/-- What has been seen once `c` is added to the token (`Shape.feed`). -/
def extend (s : Outline) (c : Char) : Outline :=
  let s := { s with last := some c }
  if Numeral.isDigit c then { s with digits := true }
  else match c with
    | '.' => { s with point := true }
    | 'e' | 'E' => { s with exponent := true }
    | 'i' | 'u' => { s with suffix := true }
    | _ => s

end Outline

/-- The characters up to the next blank, and the rest. -/
def readRun (text : List Char) : List Char × List Char :=
  (text.takeWhile fun c => !Text.isBlank c, text.dropWhile fun c => !Text.isBlank c)

/-- Reads on to the next blank: whether the outline allowed every character, the characters, and the
rest. -/
def Outline.readRun (s : Outline) : List Char → Bool × List Char × List Char
  | [] => (true, [], [])
  | c :: text =>
    if Text.isBlank c then (true, [], c :: text)
    else if s.allows c text.head? then
      let (numeric, run, rest) := (s.extend c).readRun text
      (numeric, c :: run, rest)
    else (false, ReversePolish.readRun (c :: text))

/-! ## One token -/

/-- What the lexer finds from a place on. -/
inductive Lexeme where
  | finished
  | failed (reason : Diagnostic)
  | token (t : Token) (after : Cursor)
  deriving DecidableEq, Repr

namespace Lexeme

def fail (code : ProcessingError) (position : Nat) : Lexeme :=
  .failed (.atOffset (.processing code) position)

/-- The string whose opening quote is at `start` and whose inside is `inside` (the state `InString`
of `Tokenizer.scan`). -/
def quoted (start : Cursor) (inside : List Char) : Lexeme :=
  match Quoted.read inside with
  | .closed contents rest =>
    .token ⟨.string, String.ofList contents, start.offset⟩ (start.moveTo rest)
  | .unclosed => .fail .invalidToken start.offset
  | .badEscape rest => .fail .unknownToken (start.moveTo rest).offset

/-- The reference whose sigil is at `start` (the state `InVariable`, and its end in
`Tokenizer.finish`). -/
def reference (start : Cursor) (kind : TokenKind) (afterSigil : List Char) : Lexeme :=
  let (name, rest) := readRun afterSigil
  if name.isEmpty then .fail .invalidToken start.offset
  else .token ⟨kind, String.ofList name, start.offset⟩ (start.moveTo rest)

/-- The word at `start` (the state `InWord`). -/
def word (start : Cursor) : Lexeme :=
  let (run, rest) := readRun start.rest
  .token ⟨.word, String.ofList run, start.offset⟩ (start.moveTo rest)

/-- The token at `start` that begins like a number with the character `first`: a number, a word if
it turns out to be none, or a failure if it is a number that does not fit (the state `InNumber`, and
its end in `Tokenizer.finish`). -/
def numeric (start : Cursor) (first : Char) (tail : List Char) : Lexeme :=
  let (accepted, run, rest) := (({} : Outline).extend first).readRun tail
  let run := first :: run
  let token (kind : TokenKind) : Lexeme :=
    .token ⟨kind, String.ofList run, start.offset⟩ (start.moveTo rest)
  if accepted then
    match Number.parse? run with
    | some (.ok n) => token (.number n)
    | some (.error code) => .fail code start.offset
    | none => token .word
  else token .word

def startsNumber (c : Char) : Bool := Numeral.isDigit c || c == '+' || c == '-' || c == '.'

/-- The first token from a place on (`Tokenizer.scan`, from its state `Idle`). -/
def first (c : Cursor) : Lexeme :=
  let start := c.skipBlanks
  match start.rest with
  | [] => .finished
  | '"' :: inside => quoted start inside
  | '&' :: name => reference start .reference name
  | '$' :: name => reference start .boundReference name
  | first :: tail => if startsNumber first then numeric start first tail else word start

end Lexeme

/-! ## Progress -/

theorem length_dropWhile_le (p : Char → Bool) (text : List Char) :
    (text.dropWhile p).length ≤ text.length :=
  (List.dropWhile_suffix p).length_le

theorem length_readRun_le (text : List Char) : (readRun text).2.length ≤ text.length :=
  length_dropWhile_le _ text

theorem Outline.length_readRun_le (s : Outline) (text : List Char) :
    (s.readRun text).2.2.length ≤ text.length := by
  fun_induction Outline.readRun s text with
  | case1 => simp
  | case2 => simp
  | case3 s c text _ _ numeric run rest hr ih =>
    rw [hr] at ih
    exact Nat.le_succ_of_le ih
  | case4 s c text => exact ReversePolish.length_readRun_le (c :: text)

theorem Cursor.length_skipBlanks_le (c : Cursor) : c.skipBlanks.rest.length ≤ c.rest.length :=
  length_dropWhile_le _ _

/-- The head of what is left when blanks are dropped is no blank. -/
theorem isBlank_of_skipBlanks {c : Cursor} {first : Char} {tail : List Char}
    (h : c.skipBlanks.rest = first :: tail) : Text.isBlank first = false := by
  have := List.head?_dropWhile_not Text.isBlank c.rest
  have h' : c.rest.dropWhile Text.isBlank = first :: tail := h
  rw [h'] at this
  simpa using this

namespace Lexeme

theorem length_lt_of_quoted {start after : Cursor} {inside : List Char} {t : Token}
    (h : quoted start inside = .token t after) : after.rest.length < inside.length := by
  unfold quoted at h
  split at h
  · next hr =>
    cases h
    exact Quoted.length_lt_of_read hr
  · cases h
  · cases h

theorem length_le_of_reference {start after : Cursor} {kind : TokenKind} {name : List Char}
    {t : Token} (h : reference start kind name = .token t after) :
    after.rest.length ≤ name.length := by
  simp only [reference] at h
  split at h
  · cases h
  · cases h
    exact length_readRun_le name

theorem length_le_of_numeric {start after : Cursor} {first : Char} {tail : List Char} {t : Token}
    (h : numeric start first tail = .token t after) : after.rest.length ≤ tail.length := by
  have hle := Outline.length_readRun_le (({} : Outline).extend first) tail
  simp only [numeric] at h
  split at h
  · split at h <;> cases h <;> exact hle
  · cases h
    exact hle

theorem length_le_of_word {start after : Cursor} {first : Char} {tail : List Char} {t : Token}
    (hs : start.rest = first :: tail) (hb : Text.isBlank first = false)
    (h : word start = .token t after) : after.rest.length ≤ tail.length := by
  simp only [word, readRun, hs] at h
  cases h
  simp only [Cursor.moveTo, List.dropWhile_cons, hb, Bool.not_false, if_true]
  exact length_dropWhile_le _ tail

/-- Every token takes up at least one character. -/
theorem length_lt_of_first {c after : Cursor} {t : Token} (h : first c = .token t after) :
    after.rest.length < c.rest.length := by
  have hle := c.length_skipBlanks_le
  simp only [first] at h
  split at h
  · cases h
  · next heq =>
    have := length_lt_of_quoted h
    simp only [heq, List.length_cons] at hle
    omega
  · next heq =>
    have := length_le_of_reference h
    simp only [heq, List.length_cons] at hle
    omega
  · next heq =>
    have := length_le_of_reference h
    simp only [heq, List.length_cons] at hle
    omega
  · next heq =>
    have hb := isBlank_of_skipBlanks heq
    simp only [heq, List.length_cons] at hle
    split at h
    · have := length_le_of_numeric h
      omega
    · have := length_le_of_word heq hb h
      omega

end Lexeme

/-! ## All tokens -/

/-- A lexer: where it is, and whether it has stopped (`Tokenizer`). -/
structure Lexer where
  cursor : Cursor
  done : Bool := false
  deriving DecidableEq, Repr

namespace Lexer

/-- A lexer at the start of a text, unless the text takes up more than `capacity` bytes
(`Tokenizer.new`). -/
def ofText (text : String) (capacity : Nat) : Except Diagnostic Lexer :=
  if text.utf8ByteSize > capacity then
    .error (.atOffset (.processing .inputBufferOverflow) capacity)
  else .ok ⟨⟨0, text.toList⟩, false⟩

/-- The next token or failure, if there is one, and the lexer behind it (`Tokenizer.next`). -/
def next (l : Lexer) : Option (Except Diagnostic Token) × Lexer :=
  if l.done then (none, l)
  else match Lexeme.first l.cursor with
    | .finished => (none, { l with done := true })
    | .failed reason => (some (.error reason), { l with done := true })
    | .token t after => (some (.ok t), ⟨after, false⟩)

theorem length_lt_of_next {l after : Lexer} {t : Token} (h : l.next = (some (.ok t), after)) :
    after.cursor.rest.length < l.cursor.rest.length := by
  unfold next at h
  split at h
  · cases h
  · split at h
    · cases h
    · cases h
    · next hs => cases h; exact Lexeme.length_lt_of_first hs

/-- Everything a lexer yields until it stops. -/
structure Yield where
  tokens : List Token
  failure : Option Diagnostic
  /-- The lexer when it has stopped. -/
  after : Lexer
  deriving DecidableEq, Repr

def drain (l : Lexer) : Yield :=
  match h : l.next with
  | (none, after) => ⟨[], none, after⟩
  | (some (.error reason), after) => ⟨[], some reason, after⟩
  | (some (.ok t), after) =>
    have := length_lt_of_next h
    let rest := drain after
    { rest with tokens := t :: rest.tokens }
termination_by l.cursor.rest.length

end Lexer

end ReversePolish
