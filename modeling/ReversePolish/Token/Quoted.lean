/-!
# Quoted strings

The inside of a string literal is a sequence of items up to the closing quote. An item is any
character but the quote and the backslash, line ends included, or one of the escapes `\n`, `\t`,
`\r`, `\\`, `\"` and `\xHH`, the last giving the character with the code `HH`.
-/

namespace ReversePolish.Quoted

def hexValue? (c : Char) : Option Nat :=
  if '0' ≤ c ∧ c ≤ '9' then some (c.toNat - '0'.toNat)
  else if 'a' ≤ c ∧ c ≤ 'f' then some (c.toNat - 'a'.toNat + 10)
  else if 'A' ≤ c ∧ c ≤ 'F' then some (c.toNat - 'A'.toNat + 10)
  else none

/-- The character that an escape stands for, given what follows its backslash, and the rest
(`Tokenizer.escape`). -/
def escape? : List Char → Option (Char × List Char)
  | 'n' :: rest => some ('\n', rest)
  | 't' :: rest => some ('\t', rest)
  | 'r' :: rest => some ('\r', rest)
  | '\\' :: rest => some ('\\', rest)
  | '"' :: rest => some ('"', rest)
  | 'x' :: high :: low :: rest => do
    let high ← hexValue? high
    let low ← hexValue? low
    return (Char.ofNat (16 * high + low), rest)
  | _ => none

/-- An escape takes up at least one character. -/
theorem length_lt_of_escape? {text rest : List Char} {c : Char}
    (h : escape? text = some (c, rest)) : rest.length < text.length := by
  unfold escape? at h
  split at h
  case h_6 =>
    simp only [Option.bind_eq_bind, Option.bind_eq_some_iff] at h
    obtain ⟨_, _, _, _, h⟩ := h
    cases h
    simp only [List.length_cons]
    omega
  case h_7 => cases h
  all_goals cases h; simp

/-- How reading the inside of a string ends. -/
inductive Outcome where
  /-- At the closing quote: the decoded contents, and what follows the quote. -/
  | closed (contents : List Char) (rest : List Char)
  /-- At the end of the text. -/
  | unclosed
  /-- At a backslash that starts no escape: the text from that backslash on. -/
  | badEscape (rest : List Char)
  deriving DecidableEq, Repr

def Outcome.cons (c : Char) : Outcome → Outcome
  | .closed contents rest => .closed (c :: contents) rest
  | outcome => outcome

/-- Reads the inside of a string, from behind its opening quote (the state `InString` of
`Tokenizer.scan`). -/
def read : List Char → Outcome
  | [] => .unclosed
  | '"' :: rest => .closed [] rest
  | '\\' :: tail =>
    match h : escape? tail with
    | some (c, rest) =>
      have := length_lt_of_escape? h
      (read rest).cons c
    | none => .badEscape ('\\' :: tail)
  | c :: rest => (read rest).cons c
termination_by text => text.length

/-- Reading past a closing quote leaves a shorter text. -/
theorem length_lt_of_read {text contents rest : List Char}
    (h : read text = .closed contents rest) : rest.length < text.length := by
  fun_induction read text generalizing contents with
  | case1 => cases h
  | case2 => cases h; simp
  | case3 tail c rest' hesc hlt ih =>
    cases hr : read rest' with
    | closed contents' rest'' =>
      rw [hr] at h
      cases h
      have := ih hr
      simp only [List.length_cons]
      omega
    | unclosed => rw [hr] at h; cases h
    | badEscape r => rw [hr] at h; cases h
  | case4 => cases h
  | case5 c rest' _ _ ih =>
    cases hr : read rest' with
    | closed contents' rest'' =>
      rw [hr] at h
      cases h
      have := ih hr
      simp only [List.length_cons]
      omega
    | unclosed => rw [hr] at h; cases h
    | badEscape r => rw [hr] at h; cases h

end ReversePolish.Quoted
