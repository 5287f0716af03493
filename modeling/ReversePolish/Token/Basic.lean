import ReversePolish.Number.Basic
/-!
# Tokens

What a text is made of: words, numbers, strings, and references to variables.
-/

namespace ReversePolish

/-- The kind of a token; a number brings its value along. -/
inductive TokenKind where
  | word
  | number (n : Number)
  | string
  /-- A reference `&name`, which may create the variable (`TokenKind.Variable`). -/
  | reference
  /-- A reference `$name`, which never creates one (`TokenKind.BoundVariable`). -/
  | boundReference
  deriving DecidableEq, Repr

/-- A token. Its text is that of the word or of the literal, the decoded contents of a string, or
the name of a variable without its sigil; its offset is that of its first byte. -/
structure Token where
  kind : TokenKind
  text : String
  offset : Nat
  deriving DecidableEq, Repr

end ReversePolish
