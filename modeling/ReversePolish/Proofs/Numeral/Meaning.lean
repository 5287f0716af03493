import Mathlib.Computability.RegularExpressions
import ReversePolish.Proofs.Numeral.Grammar
import ReversePolish.Proofs.Binary64.Decimals
import ReversePolish.Proofs.Value.Conversions
/-!
# The grammar of literals and what they mean

The literals are the texts of a regular expression, which has a part for every part of a `Numeral`
(`mem_grammar`). A literal without a suffix is the float nearest to the rational number that is
written there, with its sign. One with a suffix is the exact integer that is written there, or it is
refused: an integer never wraps, however many digits it has (`parse?_grammar`).
-/

namespace ReversePolish

namespace Numeral

open RegularExpression (matches'_add matches'_mul matches'_star matches'_char matches'_epsilon)

/-! ## The regular expression -/

/-- A single character out of some. -/
def oneOf (cs : List Char) : RegularExpression Char := (cs.map .char).sum

def optional (r : RegularExpression Char) : RegularExpression Char := 1 + r

def digit : RegularExpression Char := oneOf ['0', '1', '2', '3', '4', '5', '6', '7', '8', '9']

/-- Digits, and at least one of them. -/
def someDigits : RegularExpression Char := digit * digit.star

/-- `[+-]?` -/
def Sign.grammar : RegularExpression Char := optional (oneOf ['+', '-'])

/-- `digits (. digits*)? | . digits` -/
def Mantissa.grammar : RegularExpression Char :=
  someDigits * optional (.char '.' * digit.star) + .char '.' * someDigits

/-- `[eE] [+-]? digits` -/
def Exponent.grammar : RegularExpression Char := oneOf ['e', 'E'] * Sign.grammar * someDigits

/-- `[iu]?` -/
def Suffix.grammar : RegularExpression Char := optional (oneOf ['i', 'u'])

/-- `[+-]? (digits (. digits*)? | . digits) ([eE] [+-]? digits)? [iu]?` -/
def grammar : RegularExpression Char :=
  Sign.grammar * Mantissa.grammar * optional Exponent.grammar * Suffix.grammar

variable {text : List Char} {r : RegularExpression Char} {l : Numeral}

theorem mem_oneOf {cs : List Char} : text ∈ (oneOf cs).matches' ↔ ∃ c ∈ cs, [c] = text := by
  unfold oneOf
  induction cs with
  | nil => simp [Language.notMem_zero]
  | cons c cs ih =>
    rw [List.map_cons, List.sum_cons, matches'_add, Language.mem_add, ih, matches'_char,
      List.exists_mem_cons_iff]
    exact or_congr_left eq_comm

theorem mem_optional : text ∈ (optional r).matches' ↔ text = [] ∨ text ∈ r.matches' := by
  rw [optional, matches'_add, Language.mem_add, matches'_epsilon, Language.mem_one]

theorem mem_digit : text ∈ digit.matches' ↔ ∃ c, isDigit c = true ∧ [c] = text := by
  have hdigit : ∀ c, c ∈ ['0', '1', '2', '3', '4', '5', '6', '7', '8', '9'] ↔ isDigit c = true := by
    intro c
    have hcode : isDigit c = true ↔ 48 ≤ c.toNat ∧ c.toNat ≤ 57 := by
      simp only [isDigit, Char.le_def, UInt32.le_iff_toNat_le, Bool.and_eq_true, decide_eq_true_eq]
      exact Iff.rfl
    simp only [hcode, List.mem_cons, List.not_mem_nil, or_false, ← Char.toNat_inj, Char.reduceToNat]
    omega
  simp only [digit, mem_oneOf, hdigit]

theorem mem_star_digit : text ∈ digit.star.matches' ↔ Digits text := by
  rw [matches'_star, Language.mem_kstar]
  constructor
  · rintro ⟨pieces, rfl, hpieces⟩ c hc
    obtain ⟨piece, hpiece, hc⟩ := List.mem_flatten.1 hc
    obtain ⟨d, hd, rfl⟩ := mem_digit.1 (hpieces piece hpiece)
    rwa [List.mem_singleton.1 hc]
  · intro h
    refine ⟨text.map fun c => [c], (List.flatMap_singleton' text).symm, fun piece hpiece => ?_⟩
    obtain ⟨c, hc, rfl⟩ := List.mem_map.1 hpiece
    exact mem_digit.2 ⟨c, h c hc, rfl⟩

theorem mem_someDigits : text ∈ someDigits.matches' ↔ Digits text ∧ text ≠ [] := by
  simp only [someDigits, matches'_mul, Language.mem_mul, mem_digit, mem_star_digit]
  constructor
  · rintro ⟨_, ⟨c, hc, rfl⟩, rest, hrest, rfl⟩
    exact ⟨List.forall_mem_cons.2 ⟨hc, hrest⟩, List.cons_ne_nil c rest⟩
  · rintro ⟨h, hne⟩
    obtain ⟨c, rest, rfl⟩ := List.exists_cons_of_ne_nil hne
    obtain ⟨hc, hrest⟩ := List.forall_mem_cons.1 h
    exact ⟨_, ⟨c, hc, rfl⟩, rest, hrest, rfl⟩

/-- An optional character that is one of two marks. -/
theorem mem_optional_mark {α : Type} {a b : α} (char : α → Char) (hmarks : ∀ x, x = a ∨ x = b) :
    text ∈ (optional (oneOf [char a, char b])).matches'
      ↔ ∃ mark : Option α, (mark.map char).toList = text := by
  simp only [mem_optional, mem_oneOf, List.exists_mem_cons_iff, List.not_mem_nil, false_and,
    exists_false, or_false]
  constructor
  · rintro (rfl | rfl | rfl)
    · exact ⟨none, rfl⟩
    · exact ⟨some a, rfl⟩
    · exact ⟨some b, rfl⟩
  · rintro ⟨_ | x, rfl⟩
    · exact .inl rfl
    · rcases hmarks x with rfl | rfl
      · exact .inr (.inl rfl)
      · exact .inr (.inr rfl)

theorem Sign.mem_grammar :
    text ∈ Sign.grammar.matches' ↔ ∃ sign : Option Sign, (sign.map Sign.char).toList = text :=
  mem_optional_mark Sign.char fun sign => match sign with
    | .plus => .inl rfl
    | .minus => .inr rfl

theorem Suffix.mem_grammar :
    text ∈ Suffix.grammar.matches'
      ↔ ∃ suffix : Option Suffix, (suffix.map Suffix.char).toList = text :=
  mem_optional_mark Suffix.char fun suffix => match suffix with
    | .integer => .inl rfl
    | .unsigned => .inr rfl

theorem Mantissa.mem_grammar :
    text ∈ Mantissa.grammar.matches' ↔ ∃ m : Mantissa, m.WellFormed ∧ m.write = text := by
  have hpoint : ∀ p, p ∈ (RegularExpression.char '.').matches' ↔ p = ['.'] := fun _ => Iff.rfl
  simp only [Mantissa.grammar, matches'_add, matches'_mul, Language.mem_add, Language.mem_mul,
    mem_optional, mem_someDigits, mem_star_digit, hpoint]
  constructor
  · rintro (⟨whole, ⟨hwhole, hne⟩, _, rfl | ⟨_, rfl, ds, hds, rfl⟩, rfl⟩
      | ⟨_, rfl, ds, ⟨hds, hne⟩, rfl⟩)
    · exact ⟨⟨whole, none⟩, ⟨hwhole, by rintro ds ⟨⟩, .inl hne⟩, (List.append_nil whole).symm⟩
    · exact ⟨⟨whole, some ds⟩, ⟨hwhole, by rintro ds ⟨⟩; exact hds, .inl hne⟩, rfl⟩
    · exact ⟨⟨[], some ds⟩, ⟨by rintro c ⟨⟩, by rintro ds ⟨⟩; exact hds, .inr ⟨ds, rfl, hne⟩⟩, rfl⟩
  · rintro ⟨⟨whole, fraction⟩, ⟨hwhole, hfraction, hne⟩, rfl⟩
    cases fraction with
    | none =>
      replace hne : whole ≠ [] := hne.resolve_right (by simp)
      exact .inl ⟨whole, ⟨hwhole, hne⟩, [], .inl rfl, List.append_nil whole⟩
    | some ds =>
      have hds := hfraction ds rfl
      by_cases hempty : whole = []
      · subst hempty
        obtain ⟨_, ⟨⟩, hne⟩ := hne.resolve_left (by simp)
        exact .inr ⟨_, rfl, ds, ⟨hds, hne⟩, rfl⟩
      · exact .inl ⟨whole, ⟨hwhole, hempty⟩, _, .inr ⟨_, rfl, ds, hds, rfl⟩, rfl⟩

theorem Exponent.mem_grammar :
    text ∈ Exponent.grammar.matches' ↔ ∃ e : Exponent, e.WellFormed ∧ e.write = text := by
  simp only [Exponent.grammar, matches'_mul, Language.mem_mul, mem_oneOf, Sign.mem_grammar,
    mem_someDigits, List.exists_mem_cons_iff, List.not_mem_nil, false_and, exists_false, or_false]
  constructor
  · rintro ⟨_, ⟨_, rfl | rfl, _, ⟨sign, rfl⟩, rfl⟩, ds, ⟨hds, hne⟩, rfl⟩
    · exact ⟨⟨false, sign, ds⟩, ⟨hds, hne⟩, rfl⟩
    · exact ⟨⟨true, sign, ds⟩, ⟨hds, hne⟩, rfl⟩
  · rintro ⟨⟨upperCase, sign, ds⟩, ⟨hds, hne⟩, rfl⟩
    refine ⟨_, ⟨[if upperCase then 'E' else 'e'], ?_, _, ⟨sign, rfl⟩, rfl⟩, ds, ⟨hds, hne⟩, rfl⟩
    cases upperCase
    · exact .inl rfl
    · exact .inr rfl

/-- **The literals are the texts of the grammar.** -/
theorem mem_grammar : text ∈ grammar.matches' ↔ ∃ l : Numeral, l.WellFormed ∧ l.write = text := by
  simp only [grammar, matches'_mul, Language.mem_mul, Sign.mem_grammar, Mantissa.mem_grammar,
    mem_optional, Exponent.mem_grammar, Suffix.mem_grammar]
  constructor
  · rintro ⟨_, ⟨_, ⟨_, ⟨sign, rfl⟩, _, ⟨m, hm, rfl⟩, rfl⟩, _, rfl | ⟨e, he, rfl⟩, rfl⟩, _,
      ⟨suffix, rfl⟩, rfl⟩
    · exact ⟨⟨sign, m, none, suffix⟩, ⟨hm, by rintro e ⟨⟩⟩, rfl⟩
    · exact ⟨⟨sign, m, some e, suffix⟩, ⟨hm, by rintro e ⟨⟩; exact he⟩, rfl⟩
  · rintro ⟨⟨sign, m, exponent, suffix⟩, ⟨hm, he⟩, rfl⟩
    refine ⟨_, ⟨_, ⟨_, ⟨sign, rfl⟩, _, ⟨m, hm, rfl⟩, rfl⟩, exponent.elim [] Exponent.write, ?_,
      rfl⟩, _, ⟨suffix, rfl⟩, rfl⟩
    cases exponent with
    | none => exact .inl rfl
    | some e => exact .inr ⟨e, he e rfl, rfl⟩

/-! ## The numbers -/

/-- The number that is written between the sign and the suffix. -/
def magnitude (l : Numeral) : ℚ :=
  let fraction := l.mantissa.fraction.getD []
  (digitsValue l.mantissa.whole + digitsValue fraction / 10 ^ fraction.length)
    * 10 ^ l.exponent.elim 0 Exponent.value

/-- The sign of the float; that of a zero is kept. -/
def floatSign (l : Numeral) : Float.Model.UnpackedFloat.Sign :=
  if l.sign = some .minus then .negative else .positive

/-- The number that is written before the suffix. -/
def number (l : Numeral) : ℚ := l.floatSign.apply 1 * l.magnitude

/-- The integer that is written before the point. -/
def integer (l : Numeral) : ℤ := signed l.sign (digitsValue l.mantissa.whole)

theorem digitsValue_append (ds es : List Char) :
    digitsValue (ds ++ es) = 10 ^ es.length * digitsValue ds + digitsValue es := by
  simp only [digitsValue, Nat.ofDigitChars_append]
  exact Nat.ofDigitChars_eq_ofDigitChars_zero

/-- The point may be moved behind the last digit. -/
theorem magnitude_eq (l : Numeral) :
    l.magnitude = digitsValue (l.mantissa.whole ++ l.mantissa.fraction.getD [])
      * 10 ^ (l.exponent.elim 0 Exponent.value - (l.mantissa.fraction.getD []).length) := by
  simp only [magnitude, digitsValue_append]
  rw [zpow_sub₀ (by norm_num), zpow_natCast]
  push_cast
  field_simp

theorem magnitude_nonneg (l : Numeral) : 0 ≤ l.magnitude := by
  unfold magnitude
  positivity

theorem isNearest_toFloat (l : Numeral) :
    Binary64.IsNearest l.floatSign l.magnitude l.toFloat := by
  have hnearest := Binary64.isNearest_ofDecimal
    (digitsValue (l.mantissa.whole ++ l.mantissa.fraction.getD []))
    (l.exponent.elim 0 Exponent.value - (l.mantissa.fraction.getD []).length)
  rw [← magnitude_eq] at hnearest
  by_cases hsign : l.sign = some .minus
  · simp only [floatSign, toFloat, if_pos hsign]
    exact hnearest.neg
  · simp only [floatSign, toFloat, if_neg hsign]
    exact hnearest

/-! ## The result -/

/-- What it is to read a literal right: it is the nearest float, or the integer in the word that the
suffix asks for, and it is refused if it is no integer or one that does not fit. -/
structure Means (l : Numeral) (result : Except ProcessingError Number) : Prop where
  float : l.suffix = none →
    ∃ x, result = .ok (.float x) ∧ Binary64.IsNearest l.floatSign l.magnitude x
  /-- No finite float is nearer to the number that is written. -/
  nearest : ∀ x p, result = .ok (.float x) → Binary64.rational? x = some p →
    ∀ y r, Binary64.rational? y = some r → |p - l.number| ≤ |r - l.number|
  misplaced : l.suffix ≠ none → l.isIntegral = false → result = .error .invalidToken
  integer : l.suffix = some .integer → l.isIntegral = true →
    if -2 ^ 63 ≤ l.integer ∧ l.integer < 2 ^ 63 then
      ∃ i : Int64, result = .ok (.integer i) ∧ i.toInt = l.integer
    else result = .error .invalidToken
  unsigned : l.suffix = some .unsigned → l.isIntegral = true →
    if l.sign ≠ some .minus ∧ l.integer < 2 ^ 64 then
      ∃ u : UInt64, result = .ok (.unsigned u) ∧ u.toNat = l.integer
    else result = .error .invalidToken

/-- The digits of an unsigned literal denote a natural number, as there is no minus. -/
theorem integer_nonneg (h : l.sign ≠ some .minus) : 0 ≤ l.integer := by
  unfold integer signed
  split
  · next hsign => exact absurd hsign h
  · exact Int.natCast_nonneg _

theorem value_of_integer (hsuffix : l.suffix = some .integer) (hintegral : l.isIntegral = true) :
    l.value = if Number.fitsInteger l.integer then .ok (.integer (Int64.ofInt l.integer))
      else .error .invalidToken := by
  simp only [value, hsuffix, hintegral]
  rfl

theorem value_of_unsigned (hsuffix : l.suffix = some .unsigned) (hintegral : l.isIntegral = true) :
    l.value = if l.sign ≠ some .minus ∧ Number.fitsUnsigned l.integer then
      .ok (.unsigned (UInt64.ofInt l.integer)) else .error .invalidToken := by
  simp only [value, hsuffix, hintegral]
  rfl

/-- Without a suffix a literal is a float, and what a suffix lets through is a word. -/
theorem value_eq_ok {n : Number} (h : l.value = .ok n) :
    l.suffix = none ∧ n = .float l.toFloat ∨ l.suffix ≠ none ∧ ∃ z, n.integer? = some z := by
  cases hsuffix : l.suffix with
  | none =>
    simp only [value, hsuffix, Except.ok.injEq] at h
    exact .inl ⟨rfl, h.symm⟩
  | some suffix =>
    refine .inr ⟨by simp, ?_⟩
    simp only [value, hsuffix] at h
    split at h
    · cases h
    · cases suffix <;> dsimp only at h <;> split at h <;> cases h <;> exact ⟨_, rfl⟩

theorem means_value (l : Numeral) : l.Means l.value := by
  constructor
  · intro hsuffix
    exact ⟨l.toFloat, by simp only [value, hsuffix], l.isNearest_toFloat⟩
  · intro x p hvalue hx y r hy
    rcases value_eq_ok hvalue with ⟨-, hfloat⟩ | ⟨-, z, hword⟩
    · cases hfloat
      exact l.isNearest_toFloat.abs_sub_le l.magnitude_nonneg hx hy
    · cases hword
  · intro hsuffix hintegral
    obtain ⟨suffix, hsuffix⟩ := Option.ne_none_iff_exists'.1 hsuffix
    simp [value, hsuffix, hintegral]
  · intro hsuffix hintegral
    rw [value_of_integer hsuffix hintegral]
    simp only [Number.fitsInteger_iff]
    split
    · next hfits => exact ⟨_, rfl, WordRange.signed.toInt_ofInt hfits.1 hfits.2⟩
    · rfl
  · intro hsuffix hintegral
    have hfits : (l.sign ≠ some .minus ∧ Number.fitsUnsigned l.integer = true)
        ↔ l.sign ≠ some .minus ∧ l.integer < 2 ^ 64 := by
      rw [Number.fitsUnsigned_iff]
      exact and_congr_right fun hsign => and_iff_right (integer_nonneg hsign)
    rw [value_of_unsigned hsuffix hintegral]
    simp only [hfits]
    split
    · next hfits =>
      exact ⟨_, rfl, WordRange.unsigned.toInt_ofInt (integer_nonneg hfits.1) hfits.2⟩
    · rfl

end Numeral

/-! ## Reading a text -/

/-- **Exactly the texts of the grammar are literals**, and each of them is read right. -/
theorem Number.parse?_grammar (text : List Char) :
    (Number.parse? text = none ↔ text ∉ Numeral.grammar.matches') ∧
      (text ∈ Numeral.grammar.matches' ↔ ∃ l : Numeral, l.WellFormed ∧ l.write = text) ∧
      ∀ l : Numeral, l.WellFormed → l.write = text →
        ∃ result, Number.parse? text = some result ∧ l.Means result := by
  refine ⟨?_, Numeral.mem_grammar, ?_⟩
  · rw [Numeral.mem_grammar]
    constructor
    · rintro hnone ⟨l, hl, rfl⟩
      rw [Numeral.parse?_write hl] at hnone
      cases hnone
    · intro hno
      cases h : Number.parse? text with
      | none => rfl
      | some result =>
        obtain ⟨l, hl, hwrite, -⟩ := Numeral.exists_write_of_parse? h
        exact absurd ⟨l, hl, hwrite⟩ hno
  · rintro l hl rfl
    exact ⟨l.value, Numeral.parse?_write hl, l.means_value⟩

/-- The least signed word, written with more digits than a word has, and two letters where one may
stand. -/
theorem Number.parse?_grammar_least :
    let l : Numeral := ⟨some .minus, ⟨"0009223372036854775808".toList, none⟩, none, some .integer⟩
    l.WellFormed ∧ l.write = "-0009223372036854775808i".toList ∧ l.integer = -2 ^ 63 ∧
      Number.parse? l.write = some (.ok (.integer Int64.minValue)) ∧
      l.Means (.ok (.integer Int64.minValue)) ∧
      "12iu".toList ∉ Numeral.grammar.matches' := by
  intro l
  have hl : l.WellFormed :=
    ⟨⟨List.all_eq_true.1 rfl, by rintro ds ⟨⟩, .inl (by decide)⟩, by rintro e ⟨⟩⟩
  have hparse : Number.parse? l.write = some (.ok (.integer Int64.minValue)) := by decide +kernel
  obtain ⟨result, hresult, hmeans⟩ := (Number.parse?_grammar l.write).2.2 l hl rfl
  rw [hparse] at hresult
  cases hresult
  exact ⟨hl, by decide, by decide, hparse, hmeans,
    (Number.parse?_grammar "12iu".toList).1.1 (by decide)⟩

end ReversePolish
