import ReversePolish.Number.Basic
import ReversePolish.Text.Blank
/-!
# Numeric literals

`[+-]? (digits (. digits*)? | . digits) ([eE] [+-]? digits)? [iu]?`

A literal is a float unless its suffix makes it a signed (`i`) or an unsigned (`u`) integer. An
integer must be written without a point and without an exponent, and must fit its word.
`Numeral.read?` reads a literal off the start of a text and `Numeral.write` puts it back, so a
literal keeps all that is needed to write it as it stood.
-/

namespace ReversePolish

/-- An explicit sign. -/
inductive Numeral.Sign where
  | plus
  | minus
  deriving DecidableEq, Repr

/-- The representation that a suffix asks for. -/
inductive Numeral.Suffix where
  | integer
  | unsigned
  deriving DecidableEq, Repr

/-- The digits of a literal around its point; `fraction` is `none` if there is no point. -/
structure Numeral.Mantissa where
  whole : List Char
  fraction : Option (List Char)
  deriving DecidableEq, Repr

/-- The exponent of a literal, introduced by one of two letters. -/
structure Numeral.Exponent where
  upperCase : Bool
  sign : Option Numeral.Sign
  digits : List Char
  deriving DecidableEq, Repr

/-- A numeric literal, taken apart (`number.Literal`). -/
structure Numeral where
  sign : Option Numeral.Sign
  mantissa : Numeral.Mantissa
  exponent : Option Numeral.Exponent
  suffix : Option Numeral.Suffix
  deriving DecidableEq, Repr

namespace Numeral

/-- A decimal digit of ASCII. -/
def isDigit (c : Char) : Bool := '0' ≤ c && c ≤ '9'

/-! ## Reading -/

def readSign : List Char → Option Sign × List Char
  | '+' :: rest => (some .plus, rest)
  | '-' :: rest => (some .minus, rest)
  | text => (none, text)

/-- Digits around an optional point, at least one of them; without one before the point there
must be one after it (`number.mantissa`). -/
def readMantissa? (text : List Char) : Option (Mantissa × List Char) :=
  let whole := text.takeWhile isDigit
  match text.dropWhile isDigit with
  | '.' :: rest =>
    let fraction := rest.takeWhile isDigit
    if whole.isEmpty && fraction.isEmpty then none
    else some (⟨whole, some fraction⟩, rest.dropWhile isDigit)
  | rest => if whole.isEmpty then none else some (⟨whole, none⟩, rest)

/-- What follows the letter of an exponent; without digits there is no exponent. -/
def readPower? (upperCase : Bool) (text : List Char) : Option (Exponent × List Char) :=
  let (sign, rest) := readSign text
  let digits := rest.takeWhile isDigit
  if digits.isEmpty then none else some (⟨upperCase, sign, digits⟩, rest.dropWhile isDigit)

/-- An exponent at the start of a text, and the rest (`number.exponent`). -/
def readExponent? : List Char → Option (Exponent × List Char)
  | 'e' :: rest => readPower? false rest
  | 'E' :: rest => readPower? true rest
  | _ => none

def readSuffix : List Char → Option Suffix × List Char
  | 'i' :: rest => (some .integer, rest)
  | 'u' :: rest => (some .unsigned, rest)
  | text => (none, text)

/-- The literal at the start of a text, and the rest (`number.literal`). -/
def read? (text : List Char) : Option (Numeral × List Char) := do
  let (sign, rest) := readSign text
  let (mantissa, rest) ← readMantissa? rest
  let (exponent, rest) := match readExponent? rest with
    | some (exponent, rest) => (some exponent, rest)
    | none => (none, rest)
  let (suffix, rest) := readSuffix rest
  return (⟨sign, mantissa, exponent, suffix⟩, rest)

/-! ## Writing -/

def Sign.char : Sign → Char
  | .plus => '+'
  | .minus => '-'

def Suffix.char : Suffix → Char
  | .integer => 'i'
  | .unsigned => 'u'

def Mantissa.write (m : Mantissa) : List Char :=
  match m.fraction with
  | none => m.whole
  | some fraction => m.whole ++ '.' :: fraction

def Exponent.write (e : Exponent) : List Char :=
  (if e.upperCase then 'E' else 'e') :: (e.sign.map Sign.char).toList ++ e.digits

/-- The literal as it stood in the text. -/
def write (l : Numeral) : List Char :=
  (l.sign.map Sign.char).toList ++ l.mantissa.write ++ (l.exponent.elim [] Exponent.write)
    ++ (l.suffix.map Suffix.char).toList

/-! ## Meaning -/

def digitsValue (digits : List Char) : Nat := Nat.ofDigitChars 10 digits 0

/-- `magnitude` under an optional sign. -/
def signed (sign : Option Sign) (magnitude : Nat) : Int :=
  match sign with
  | some .minus => -magnitude
  | _ => magnitude

def Exponent.value (e : Exponent) : Int := signed e.sign (digitsValue e.digits)

/-- Whether a literal has neither a point nor an exponent (`Literal.integral`). -/
def isIntegral (l : Numeral) : Bool := l.mantissa.fraction.isNone && l.exponent.isNone

/-- The float nearest to the number a literal denotes; zero keeps the sign. -/
def toFloat (l : Numeral) : Float :=
  let fraction := l.mantissa.fraction.getD []
  let power := l.exponent.elim 0 Exponent.value - fraction.length
  let magnitude := Binary64.ofDecimal (digitsValue (l.mantissa.whole ++ fraction)) power
  if l.sign = some .minus then -magnitude else magnitude

/-- The number that a literal denotes, unless its suffix does not apply or the number does not fit
the representation that the suffix asks for (the cases of `number.scan`). -/
def value (l : Numeral) : Except ProcessingError Number :=
  match l.suffix with
  | none => .ok (.float l.toFloat)
  | some suffix =>
    let z := signed l.sign (digitsValue l.mantissa.whole)
    if !l.isIntegral then .error .invalidToken
    else match suffix with
      | .integer =>
        if Number.fitsInteger z then .ok (.integer (Int64.ofInt z)) else .error .invalidToken
      | .unsigned =>
        if l.sign ≠ some .minus ∧ Number.fitsUnsigned z then .ok (.unsigned (UInt64.ofInt z))
        else .error .invalidToken

end Numeral

namespace Number

/-- The number that the whole of a text denotes; `none` if the text is no literal at all
(`number.scan`). -/
def parse? (text : List Char) : Option (Except ProcessingError Number) :=
  match Numeral.read? text with
  | some (literal, []) => some literal.value
  | _ => none

/-- The number that a text denotes, blanks around it aside, if it is a literal that fits
(`number.parse_value`). -/
def ofText? (text : List Char) : Option Number :=
  (parse? (Text.trim text)).bind Except.toOption

/-- Whether a text starts like a number: with a digit, or with a sign or a point and a digit
(`number.looks_numeric`). -/
def startsLikeNumber : List Char → Bool
  | [] => false
  | c :: rest =>
    Numeral.isDigit c
      || ((c == '+' || c == '-' || c == '.') && rest.head?.any Numeral.isDigit)

end Number

end ReversePolish
