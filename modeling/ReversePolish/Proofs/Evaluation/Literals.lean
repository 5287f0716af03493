import ReversePolish.Proofs.Evaluation.Append
import ReversePolish.Proofs.Evaluation.Executed
import ReversePolish.Proofs.Numeral.Meaning
/-!
# Literals

A literal that is written out is a single token, which carries the number of the literal and
stands for the whole text (`drain_write`). The outline never gives up on it and there is no blank
in it, so this is a matter of the grammar alone.

The text of an integer with the letter of its representation behind it is such a literal. It is
read back as the integer that it is the text of, at the ends of the range as everywhere else.
-/

namespace ReversePolish

/-! ## A literal that is written out -/

namespace Numeral

variable {l : Numeral} {n : Number}

/-- A literal has a first character, and it is one at which the lexer starts to watch. -/
theorem exists_cons_write (hl : l.WellFormed) :
    ∃ first tail, l.write = first :: tail ∧ Lexeme.startsNumber first = true := by
  cases hw : l.write with
  | nil =>
    have hread := read?_write hl
    rw [hw] at hread
    cases hread
  | cons first tail => exact ⟨first, tail, rfl, (Outline.allowsRun_of_wellFormed hl hw).1⟩

/-- **A literal is one item**, and that is its number. -/
theorem lexFrom_write (hl : l.WellFormed) (hn : l.value = .ok n) (p : Nat) :
    Plain.lexFrom p l.write = [.ok ⟨.number n, String.ofList l.write, p⟩] := by
  have hparse := parse?_write hl
  have hblank : ∀ c ∈ l.write, Text.isBlank c = false := fun c hc => isBlank_of_mem_write hl hc
  obtain ⟨first, tail, hw, hfirst⟩ := exists_cons_write hl
  rw [hw] at hparse hblank ⊢
  have hquote : first ≠ '"' := by
    rintro rfl
    cases hfirst
  have hrun : readRun tail = (tail, []) :=
    readRun_eq_self fun c hc => hblank c (List.mem_cons_of_mem first hc)
  rw [Plain.lexFrom_run (hblank first List.mem_cons_self) hquote, hrun,
    Plain.classify_of_startsNumber hfirst, hparse, hn]
  simp only [Plain.followedBy]
  rw [Plain.lexFrom]

/-- **The text of a literal** is one token. -/
theorem drain_write (hl : l.WellFormed) (hn : l.value = .ok n) :
    (Lexer.start (String.ofList l.write)).drain.tokens
        = [⟨.number n, String.ofList l.write, 0⟩] ∧
      (Lexer.start (String.ofList l.write)).drain.failure = none := by
  apply Lexer.drain_of_lexFrom
  rw [String.toList_ofList, lexFrom_write hl hn]
  rfl

/-! ## The literal of an integer -/

/-- The literal of `z` in the representation of a suffix: the decimal digits of its magnitude,
behind a sign if it is negative. -/
def ofInt (z : Int) (suffix : Suffix) : Numeral where
  sign := if z < 0 then some .minus else none
  mantissa := ⟨Nat.toDigits 10 z.natAbs, none⟩
  exponent := none
  suffix := some suffix

theorem digits_toDigits (n : Nat) : Digits (Nat.toDigits 10 n) := by
  intro c hc
  have hdigit : c.isDigit = true := Nat.isDigit_of_mem_toDigits (by decide) (by decide) hc
  simpa [Char.isDigit, isDigit, Char.le_def] using hdigit

theorem wellFormed_ofInt (z : Int) (suffix : Suffix) : (ofInt z suffix).WellFormed where
  mantissa := {
    whole := digits_toDigits z.natAbs
    fraction := by rintro ds ⟨⟩
    nonempty := .inl Nat.toDigits_ne_nil }
  exponent := by rintro e ⟨⟩

/-- It is written as the integer is, with the letter of the suffix behind it. -/
theorem write_ofInt (z : Int) (suffix : Suffix) :
    String.ofList (ofInt z suffix).write = (toString z).push suffix.char := by
  have hdigits : (toString z).toList
      = ((ofInt z suffix).sign.map Sign.char).toList ++ Nat.toDigits 10 z.natAbs := by
    by_cases hz : z < 0
    · have habs : (-z).toNat = z.natAbs := by omega
      simp [ofInt, hz, Int.toString_eq_repr, Int.repr_eq_if, Int.not_le.2 hz, habs, Sign.char]
    · have habs : z.toNat = z.natAbs := by omega
      simp [ofInt, hz, Int.toString_eq_repr, Int.repr_eq_if, Int.not_lt.1 hz, habs]
  apply String.toList_inj.1
  rw [String.toList_ofList, String.toList_push, hdigits]
  simp [write, ofInt, Mantissa.write]

/-- The digits of a magnitude under the sign give the integer back. -/
theorem signed_ofInt (z : Int) (suffix : Suffix) :
    signed (ofInt z suffix).sign (digitsValue (ofInt z suffix).mantissa.whole) = z := by
  have hvalue : digitsValue (ofInt z suffix).mantissa.whole = z.natAbs :=
    Nat.ofDigitChars_ten_toDigits
  rw [hvalue]
  by_cases hz : z < 0
  · simp only [ofInt, if_pos hz, signed]
    omega
  · simp only [ofInt, if_neg hz, signed]
    omega

theorem value_ofInt_integer (i : Int64) :
    (ofInt i.toInt .integer).value = .ok (.integer i) := by
  have hinteger : (ofInt i.toInt .integer).integer = i.toInt := signed_ofInt i.toInt .integer
  have hfits := Number.fitsInteger_iff.2 ⟨i.le_toInt, i.toInt_lt⟩
  rw [value_of_integer rfl rfl, hinteger, if_pos hfits, Int64.ofInt_toInt]

theorem value_ofInt_unsigned (u : UInt64) :
    (ofInt u.toNat .unsigned).value = .ok (.unsigned u) := by
  have hinteger : (ofInt u.toNat .unsigned).integer = u.toNat := signed_ofInt u.toNat .unsigned
  have hnonneg : 0 ≤ (u.toNat : Int) := Int.natCast_nonneg _
  have hfits := Number.fitsUnsigned_iff.2 ⟨hnonneg, mod_cast u.toNat_lt⟩
  -- an unsigned literal is refused for a minus, so it matters that there is none
  have hsign : (ofInt u.toNat .unsigned).sign ≠ some .minus := by
    simp [ofInt, hnonneg.not_gt]
  rw [value_of_unsigned rfl rfl, hinteger, if_pos ⟨hsign, hfits⟩, ofInt_toNat]

end Numeral

/-! ## The text of an integer -/

/-- A text that is a literal is one token, and evaluating it does nothing but push its number. -/
theorem evaluate_write {l : Numeral} {n : Number} (hl : l.WellFormed) (hn : l.value = .ok n)
    {text : String} (htext : text = String.ofList l.write) (c : Calculator) (mustExist : Bool) :
    (Lexer.start text).drain.tokens = [⟨.number n, text, 0⟩] ∧
      (Lexer.start text).drain.failure = none ∧
      (text.utf8ByteSize ≤ c.config.capacity →
        (c.evaluate text mustExist).1.failure = none ∧
          (c.evaluate text mustExist).2.machine = (c.machine.push (.number n)).dropLoose) := by
  obtain ⟨htokens, hfailure⟩ := Numeral.drain_write hl hn
  rw [← htext] at htokens hfailure
  refine ⟨htokens, hfailure, fun hfits => ?_⟩
  have hpush : (execute c.table mustExist ⟨.number n, text, 0⟩).run c.machine
      = .ok () (c.machine.push (.number n)) := rfl
  obtain ⟨hends, hmachine⟩ := runText_of_token hfits htokens hfailure hpush
  rw [Calculator.failure_evaluate, Calculator.machine_evaluate, hmachine]
  exact ⟨hends, rfl⟩

theorem text_integer (i : Int64) :
    (Value.integer i).text ++ "i" = String.ofList (Numeral.ofInt i.toInt .integer).write := by
  rw [Numeral.write_ofInt, ← String.append_singleton]
  rfl

theorem text_unsigned (u : UInt64) :
    (Value.unsigned u).text ++ "u" = String.ofList (Numeral.ofInt u.toNat .unsigned).write := by
  rw [Numeral.write_ofInt, ← String.append_singleton]
  rfl

/-- **Reading an integer inverts writing it.** The text of a signed word with an `i` behind it, and
that of an unsigned word with a `u` behind it, is one token that stands for the whole text and
carries that very word. So evaluating the text, if it fits the capacity, pushes the word on any
machine, and does nothing else but drop what was loose. -/
theorem evaluate_integerText (c : Calculator) (mustExist : Bool) :
    (∀ i : Int64,
      let text := (Value.integer i).text ++ "i"
      (Lexer.start text).drain.tokens = [⟨.number (.integer i), text, 0⟩] ∧
        (Lexer.start text).drain.failure = none ∧
        (text.utf8ByteSize ≤ c.config.capacity →
          (c.evaluate text mustExist).1.failure = none ∧
            (c.evaluate text mustExist).2.machine
              = (c.machine.push (.integer i)).dropLoose)) ∧
      (∀ u : UInt64,
        let text := (Value.unsigned u).text ++ "u"
        (Lexer.start text).drain.tokens = [⟨.number (.unsigned u), text, 0⟩] ∧
          (Lexer.start text).drain.failure = none ∧
          (text.utf8ByteSize ≤ c.config.capacity →
            (c.evaluate text mustExist).1.failure = none ∧
              (c.evaluate text mustExist).2.machine
                = (c.machine.push (.unsigned u)).dropLoose)) := by
  constructor
  · intro i text
    exact evaluate_write (Numeral.wellFormed_ofInt _ _) (Numeral.value_ofInt_integer i)
      (text_integer i) c mustExist
  · intro u text
    exact evaluate_write (Numeral.wellFormed_ofInt _ _) (Numeral.value_ofInt_unsigned u)
      (text_unsigned u) c mustExist

/-- The least signed word and the greatest unsigned one, on a machine with a loose variable. -/
theorem evaluate_integerText_extremes :
    let c : Calculator := (Calculator.new {}).define "x" .null
    let least := (Value.integer Int64.minValue).text ++ "i"
    let greatest := (Value.unsigned (UInt64.ofNat (UInt64.size - 1))).text ++ "u"
    least = "-9223372036854775808i" ∧ greatest = "18446744073709551615u" ∧
      least.utf8ByteSize ≤ c.config.capacity ∧ greatest.utf8ByteSize ≤ c.config.capacity ∧
      (c.evaluate least false).1.failure = none ∧
      (c.evaluate least false).2.machine = (c.machine.push (.integer Int64.minValue)).dropLoose ∧
      (c.evaluate greatest true).1.failure = none ∧
      (c.evaluate greatest true).2.machine
        = (c.machine.push (.unsigned (UInt64.ofNat (UInt64.size - 1)))).dropLoose := by
  intro c least greatest
  have hleast : least = "-9223372036854775808i" := by cbv
  have hgreatest : greatest = "18446744073709551615u" := by cbv
  have hfits : least.utf8ByteSize ≤ c.config.capacity := by
    rw [hleast]
    decide
  have hfits' : greatest.utf8ByteSize ≤ c.config.capacity := by
    rw [hgreatest]
    decide
  obtain ⟨-, -, hpush⟩ := (evaluate_integerText c false).1 Int64.minValue
  obtain ⟨-, -, hpush'⟩ := (evaluate_integerText c true).2 (UInt64.ofNat (UInt64.size - 1))
  exact ⟨hleast, hgreatest, hfits, hfits', (hpush hfits).1, (hpush hfits).2, (hpush' hfits').1,
    (hpush' hfits').2⟩

end ReversePolish
