import ReversePolish.Proofs.Numeral.Grammar
import ReversePolish.Token.Lexer
/-!
# The outline accepts every literal

The lexer watches a token character by character and gives up on it for good once the `Outline`
does not allow the next one. `readRun_eq` separates the two things that are done at once: where the
run of characters ends does not depend on the outline, and whether the outline allowed all of them
depends on the run alone, although a suffix looks at the character behind it.

`allowsRun_of_parse?` is the agreement of the two descriptions of a number: a run that the grammar
accepts is never given up on. The invariant follows the parts of the grammar. In front of the
mantissa neither a point nor an exponent was seen, behind it there are digits and still no exponent,
behind the exponent there are digits, and at none of these places was there a suffix.
-/

namespace ReversePolish

namespace Outline

/-- Whether every character of a run is allowed when its turn comes, with the end of the run where
a blank or the end of the text would be. -/
def allowsRun (s : Outline) : List Char → Bool
  | [] => true
  | c :: run => s.allows c run.head? && (s.extend c).allowsRun run

/-! ## Reading on to the next blank -/

/-- All that the outline wants to know about the next character is whether it is a blank. -/
theorem allows_readRun (s : Outline) (c : Char) (text : List Char) :
    s.allows c text.head? = s.allows c (ReversePolish.readRun text).1.head? := by
  have hnext : text.head?.all Text.isBlank
      = (ReversePolish.readRun text).1.head?.all Text.isBlank := by
    cases text with
    | nil => rfl
    | cons d text =>
      by_cases hd : Text.isBlank d = true
      · simp [ReversePolish.readRun, hd]
      · simp [ReversePolish.readRun, hd]
  unfold allows
  split
  · rfl
  · split
    · rfl
    · split <;> simp only [hnext]

theorem readRun_cons_of_isBlank {c : Char} (text : List Char) (hc : Text.isBlank c = true) :
    ReversePolish.readRun (c :: text) = ([], c :: text) := by
  simp [ReversePolish.readRun, hc]

theorem readRun_cons {c : Char} (text : List Char) (hc : ¬Text.isBlank c = true) :
    ReversePolish.readRun (c :: text)
      = (c :: (ReversePolish.readRun text).1, (ReversePolish.readRun text).2) := by
  simp [ReversePolish.readRun, hc]

/-- **The run is the maximal one**, whether or not the outline allows it. -/
theorem readRun_eq (s : Outline) (text : List Char) :
    s.readRun text
      = (s.allowsRun (ReversePolish.readRun text).1, ReversePolish.readRun text) := by
  fun_induction Outline.readRun s text with
  | case1 => rfl
  | case2 s c text hc => rw [readRun_cons_of_isBlank text hc]; rfl
  | case3 s c text hc hallow numeric run rest hr ih =>
    rw [hr] at ih
    rw [readRun_cons text hc, allowsRun, ← allows_readRun, hallow, Bool.true_and]
    simp only [Prod.mk.injEq] at ih ⊢
    exact ⟨ih.1, by rw [← ih.2], by rw [← ih.2]⟩
  | case4 s c text hc hallow =>
    rw [readRun_cons text hc, allowsRun, ← allows_readRun]
    simp [hallow]

/-! ## The parts of a literal -/

theorem allows_of_isDigit {s : Outline} {c : Char} (hs : s.suffix = false)
    (hc : Numeral.isDigit c = true) (next : Option Char) : s.allows c next = true := by
  simp [allows, hs, hc]

theorem extend_of_isDigit (s : Outline) {c : Char} (hc : Numeral.isDigit c = true) :
    s.extend c = { s with digits := true, last := some c } := by
  simp [extend, hc]

/-- Digits are always allowed, and what they leave behind is that there are some. -/
theorem allowsRun_digits {s : Outline} {ds : List Char} (hs : s.suffix = false)
    (hd : Numeral.Digits ds) (run : List Char) :
    s.allowsRun (ds ++ run)
      = { s with digits := s.digits || !ds.isEmpty
                 last := ds.getLast?.or s.last }.allowsRun run := by
  induction ds generalizing s with
  | nil => simp
  | cons c ds ih =>
    have hc : Numeral.isDigit c = true := hd c (by simp)
    have hrest : Numeral.Digits ds := fun d h => hd d (by simp [h])
    rw [List.cons_append, allowsRun, allows_of_isDigit hs hc, Bool.true_and,
      extend_of_isDigit s hc, ih (by exact hs) hrest]
    simp [List.getLast?_cons]

/-- A suffix is allowed behind digits, at the end of the run. -/
theorem allowsRun_suffix {s : Outline} (hs : s.suffix = false) (hd : s.digits = true)
    (suffix : Option Numeral.Suffix) :
    s.allowsRun (suffix.map Numeral.Suffix.char).toList = true := by
  rcases suffix with _ | _ | _
  · rfl
  all_goals simp [allowsRun, allows, hs, hd, Numeral.Suffix.char, Numeral.isDigit]

/-- The sign of an exponent is allowed right behind its letter. -/
theorem allowsRun_exponentSign {s : Outline} {letter : Char} (hs : s.suffix = false)
    (hl : s.last = some letter) (hletter : letter = 'e' ∨ letter = 'E')
    (sign : Option Numeral.Sign) (run : List Char) :
    ∃ last, s.allowsRun ((sign.map Numeral.Sign.char).toList ++ run)
      = { s with last }.allowsRun run := by
  rcases sign with _ | _ | _
  · exact ⟨s.last, by simp⟩
  · refine ⟨some '+', ?_⟩
    rcases hletter with rfl | rfl <;>
      simp [allowsRun, allows, extend, hs, hl, Numeral.Sign.char, Numeral.isDigit]
  · refine ⟨some '-', ?_⟩
    rcases hletter with rfl | rfl <;>
      simp [allowsRun, allows, extend, hs, hl, Numeral.Sign.char, Numeral.isDigit]

/-- An exponent and a suffix are allowed behind a mantissa. -/
theorem allowsRun_exponent {s : Outline} (hs : s.suffix = false) (hd : s.digits = true)
    (he : s.exponent = false) {exponent : Option Numeral.Exponent}
    (hw : ∀ e, exponent = some e → e.WellFormed) (suffix : Option Numeral.Suffix) :
    s.allowsRun (exponent.elim [] Numeral.Exponent.write
      ++ (suffix.map Numeral.Suffix.char).toList) = true := by
  cases exponent with
  | none => exact allowsRun_suffix hs hd suffix
  | some e =>
    have hdigits := (hw e rfl).digits
    obtain ⟨letter, hletter, hwrite⟩ : ∃ letter, (letter = 'e' ∨ letter = 'E') ∧
        e.write = letter :: ((e.sign.map Numeral.Sign.char).toList ++ e.digits) := by
      cases hu : e.upperCase with
      | false => exact ⟨'e', .inl rfl, by simp [Numeral.Exponent.write, hu]⟩
      | true => exact ⟨'E', .inr rfl, by simp [Numeral.Exponent.write, hu]⟩
    have hallow : ∀ next, s.allows letter next = true := by
      intro next
      rcases hletter with rfl | rfl <;> simp [allows, hs, hd, he, Numeral.isDigit]
    have hextend : s.extend letter = { s with exponent := true, last := some letter } := by
      rcases hletter with rfl | rfl <;> simp [extend, Numeral.isDigit]
    obtain ⟨last, hsign⟩ := allowsRun_exponentSign (s := s.extend letter)
      (by rw [hextend]; exact hs) (by rw [hextend]) hletter e.sign
      (e.digits ++ (suffix.map Numeral.Suffix.char).toList)
    simp only [Option.elim_some, hwrite, List.cons_append, allowsRun, hallow, Bool.true_and,
      List.append_assoc, hsign]
    rw [allowsRun_digits (by rw [hextend]; exact hs) hdigits]
    exact allowsRun_suffix (by rw [hextend]; exact hs) (by simp [hextend, hd]) suffix

theorem allows_point {s : Outline} (hs : s.suffix = false) (hp : s.point = false)
    (he : s.exponent = false) (next : Option Char) : s.allows '.' next = true := by
  simp [allows, hs, hp, he, Numeral.isDigit]

theorem extend_point (s : Outline) : s.extend '.' = { s with point := true, last := some '.' } := by
  simp [extend, Numeral.isDigit]

/-- A mantissa and what may follow it are allowed where only a sign was seen. -/
theorem allowsRun_mantissa {s : Outline} (hs : s.suffix = false) (hp : s.point = false)
    (he : s.exponent = false) {m : Numeral.Mantissa} (hm : m.WellFormed)
    {exponent : Option Numeral.Exponent} (hw : ∀ e, exponent = some e → e.WellFormed)
    (suffix : Option Numeral.Suffix) :
    s.allowsRun (m.write ++ (exponent.elim [] Numeral.Exponent.write
      ++ (suffix.map Numeral.Suffix.char).toList)) = true := by
  cases hf : m.fraction with
  | none =>
    have hne : m.whole ≠ [] := by
      rcases hm.nonempty with h | ⟨ds, h, -⟩
      · exact h
      · rw [hf] at h; cases h
    simp only [Numeral.Mantissa.write, hf]
    rw [allowsRun_digits hs hm.whole]
    refine allowsRun_exponent (by exact hs) ?_ (by exact he) hw suffix
    simp [hne]
  | some ds =>
    have hsome : (s.digits || !m.whole.isEmpty || !ds.isEmpty) = true := by
      rcases hm.nonempty with h | ⟨ds', h, hne⟩
      · simp [h]
      · rw [hf] at h; cases h; simp [hne]
    simp only [Numeral.Mantissa.write, hf, List.append_assoc, List.cons_append]
    rw [allowsRun_digits hs hm.whole, allowsRun, allows_point (by exact hs) (by exact hp)
      (by exact he), extend_point, Bool.true_and,
      allowsRun_digits (by exact hs) (hm.fraction ds hf)]
    exact allowsRun_exponent (by exact hs) hsome (by exact he) hw suffix

/-! ## The literal -/

/-- A literal starts with a character at which the lexer starts to watch, and the outline allows
the rest of it. -/
theorem allowsRun_of_wellFormed {l : Numeral} (hl : l.WellFormed) {first : Char} {tail : List Char}
    (h : l.write = first :: tail) :
    Lexeme.startsNumber first = true ∧ (({} : Outline).extend first).allowsRun tail = true := by
  have hbody : ∀ s : Outline, s.suffix = false → s.point = false → s.exponent = false →
      s.allowsRun (l.mantissa.write ++ (l.exponent.elim [] Numeral.Exponent.write
        ++ (l.suffix.map Numeral.Suffix.char).toList)) = true :=
    fun s hs hp he => allowsRun_mantissa hs hp he hl.mantissa hl.exponent l.suffix
  simp only [Numeral.write, List.append_assoc] at h
  cases hsign : l.sign with
  | some sign =>
    simp only [hsign, Option.map_some, Option.toList_some, List.cons_append, List.nil_append,
      List.cons.injEq] at h
    obtain ⟨rfl, rfl⟩ := h
    constructor
    · cases sign <;> rfl
    · cases sign <;> exact hbody _ rfl rfl rfl
  | none =>
    simp only [hsign, Option.map_none, Option.toList_none, List.nil_append] at h
    have hrun := hbody {} rfl rfl rfl
    rw [h, allowsRun, Bool.and_eq_true] at hrun
    refine ⟨?_, hrun.2⟩
    -- without a sign the first character was itself allowed, and by the empty outline
    have hfirst := hrun.1
    unfold allows at hfirst
    unfold Lexeme.startsNumber
    split at hfirst
    · cases hfirst
    · split at hfirst
      · next hd => simp [hd]
      · split at hfirst <;> simp_all

/-- **A run that the grammar accepts is never given up on**: it starts like a number, and the
outline allows all of it. -/
theorem allowsRun_of_parse? {first : Char} {tail : List Char}
    (h : Number.parse? (first :: tail) ≠ none) :
    Lexeme.startsNumber first = true ∧ (({} : Outline).extend first).allowsRun tail = true := by
  obtain ⟨result, h⟩ := Option.ne_none_iff_exists'.1 h
  obtain ⟨l, hl, hwrite, -⟩ := Numeral.exists_write_of_parse? h
  exact allowsRun_of_wellFormed hl hwrite

end Outline

end ReversePolish
