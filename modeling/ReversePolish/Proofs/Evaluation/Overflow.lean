import ReversePolish.Proofs.Evaluation.Literals
import ReversePolish.Proofs.Value.Rules
/-!
# Literals beyond the largest float

An integer that does not fit its word is refused, but a literal without a suffix is accepted however
large it is, and is then an infinity. This happens from `Binary64.overflow` on, half a step above
the largest finite float, and nowhere else: a literal is infinite exactly if it `Overflows`.

So an infinity that a text puts on the stack comes from such a literal, and a string that coerces to
an infinity has one in it.
-/

namespace ReversePolish

namespace Numeral

/-- The text is a literal of a float, and the number that is written there is too large for a finite
one. -/
def Overflows (text : List Char) : Prop :=
  ∃ l : Numeral, l.WellFormed ∧ l.write = text ∧ l.suffix = none ∧ Binary64.overflow ≤ l.magnitude

variable {l : Numeral} {n : Number}

theorem overflows_write (hl : l.WellFormed) :
    Overflows l.write ↔ l.suffix = none ∧ Binary64.overflow ≤ l.magnitude := by
  constructor
  · rintro ⟨l', hl', hwrite, h⟩
    obtain rfl := write_inj hl' hl hwrite
    exact h
  · intro h
    exact ⟨l, hl, rfl, h⟩

theorem isFinite_of_value (h : l.value = .ok n) :
    n.isFinite = false ↔ l.suffix = none ∧ Binary64.overflow ≤ l.magnitude := by
  rcases value_eq_ok h with ⟨hsuffix, rfl⟩ | ⟨hsuffix, z, hword⟩
  · have hfinite := l.isNearest_toFloat.isFinite_iff
    rw [Number.isFinite, ← Bool.not_eq_true, hfinite, not_lt]
    exact (and_iff_right hsuffix).symm
  · have hfinite : n.isFinite = true := by
      cases n with
      | integer | unsigned => rfl
      | float => cases hword
    simp [hfinite, hsuffix]

end Numeral

namespace Number

variable {text : List Char} {n : Number}

/-- **A literal is infinite** exactly if it is too large. -/
theorem isFinite_of_parse? (h : parse? text = some (.ok n)) :
    n.isFinite = false ↔ Numeral.Overflows text := by
  obtain ⟨l, hl, rfl, hvalue⟩ := Numeral.exists_write_of_parse? h
  rw [Numeral.isFinite_of_value hvalue, Numeral.overflows_write hl]

/-- A literal is accepted although it is too large. -/
theorem exists_infinity_of_overflows (h : Numeral.Overflows text) :
    ∃ l : Numeral, l.WellFormed ∧ l.write = text ∧
      ∃ x, l.value = .ok (.float x) ∧ parse? text = some (.ok (.float x)) ∧ x.isInf = true := by
  obtain ⟨l, hl, rfl, hsuffix, hlarge⟩ := h
  obtain ⟨x, hvalue, hnearest⟩ := l.means_value.float hsuffix
  have hparse : parse? l.write = some (.ok (.float x)) := by rw [Numeral.parse?_write hl, hvalue]
  exact ⟨l, hl, rfl, x, hvalue, hparse, hnearest.isInf_iff.2 hlarge⟩

/-- What is read as a best-effort float is finite if the number is. -/
theorem isFinite_toFloat (n : Number) : n.toFloat.isFinite = n.isFinite := by
  cases h : n.integer? with
  | some z =>
    have hfinite : n.toFloat.isFinite = true := isFinite_of_integer? h
    cases n with
    | integer | unsigned => exact hfinite
    | float => cases h
  | none =>
    cases n with
    | integer | unsigned => cases h
    | float => rfl

end Number

/-- The number that is read out of a text is that of the literal between its blanks. -/
theorem Number.ofText?_eq_some {text : List Char} {n : Number} :
    Number.ofText? text = some n ↔ Number.parse? (Text.trim text) = some (.ok n) := by
  unfold Number.ofText?
  cases Number.parse? (Text.trim text) with
  | none => simp
  | some result => cases result <;> simp [Except.toOption]

/-- **A string coerces to an infinity** exactly if it is a literal that is too large. -/
theorem Value.isFinite_toFloat_string (s : String) :
    (Value.string s).toFloat.isFinite = false ↔ Numeral.Overflows (Text.trim s.toList) := by
  have hread : (Value.string s).toFloat = (Number.ofText? s.toList).elim 0.0 Number.toFloat := rfl
  rw [hread]
  cases hn : Number.ofText? s.toList with
  | some n =>
    rw [← Number.isFinite_of_parse? (Number.ofText?_eq_some.1 hn), ← Number.isFinite_toFloat]
    rfl
  | none =>
    have hzero : (0.0 : Float).isFinite = true := by decide
    refine iff_of_false (by simp [hzero]) fun hlarge => ?_
    obtain ⟨-, -, -, x, -, hparse, -⟩ := Number.exists_infinity_of_overflows hlarge
    rw [Number.ofText?_eq_some.2 hparse] at hn
    cases hn

/-- **An infinity in a text is a literal** that is too large. The number of a literal, of a token or
of a string is infinite exactly if its literal is too large, and no literal is refused for that: it
is a token like any other, and evaluating it pushes the infinity. -/
theorem infinite_iff_overflows (c : Calculator) (mustExist : Bool) :
    (∀ text n, Number.parse? text = some (.ok n) → (n.isFinite = false ↔ Numeral.Overflows text)) ∧
      (∀ (text : String) t n, t ∈ (Lexer.start text).drain.tokens → t.kind = .number n →
        (n.isFinite = false ↔ Numeral.Overflows t.text.toList)) ∧
      (∀ text n, Number.ofText? text = some n →
        (n.isFinite = false ↔ Numeral.Overflows (Text.trim text))) ∧
      (∀ s : String, (Value.string s).toFloat.isFinite = false ↔
        Numeral.Overflows (Text.trim s.toList)) ∧
      ∀ text : String, Numeral.Overflows text.toList → ∃ x, x.isInf = true ∧
        Number.parse? text.toList = some (.ok (.float x)) ∧
        (Lexer.start text).drain.tokens = [⟨.number (.float x), text, 0⟩] ∧
        (text.utf8ByteSize ≤ c.config.capacity →
          (c.evaluate text mustExist).1.failure = none ∧
            (c.evaluate text mustExist).2.machine = (c.machine.push (.float x)).dropLoose) := by
  refine ⟨fun text n => Number.isFinite_of_parse?, ?_, ?_, Value.isFinite_toFloat_string, ?_⟩
  · intro text t n ht hn
    have hitem : .ok t ∈ Plain.lexFrom 0 text.toList := by
      rw [← Lexer.items_drain_start]
      exact List.mem_append_left _ (List.mem_map_of_mem ht)
    exact Number.isFinite_of_parse? (Plain.parse?_of_mem hitem hn)
  · intro text n h
    exact Number.isFinite_of_parse? (Number.ofText?_eq_some.1 h)
  · intro text h
    obtain ⟨l, hl, hwrite, x, hvalue, hparse, hinf⟩ := Number.exists_infinity_of_overflows h
    have htext : text = String.ofList l.write := by rw [hwrite, String.ofList_toList]
    obtain ⟨htokens, -, hpush⟩ := evaluate_write hl hvalue htext c mustExist
    exact ⟨x, hinf, hparse, htokens, hpush⟩

/-- The largest finite float as it is written, and a literal beyond it. -/
theorem infinite_iff_overflows_ends :
    let c := Calculator.new {}
    ¬Numeral.Overflows "1.7976931348623157e308".toList ∧ Numeral.Overflows "-1e400".toList ∧
      ∃ x, x.isInf = true ∧ (c.evaluate "-1e400" false).1.failure = none ∧
        (c.evaluate "-1e400" false).2.machine = (c.machine.push (.float x)).dropLoose := by
  intro c
  obtain ⟨hliteral, -, -, -, hevaluate⟩ := infinite_iff_overflows c false
  have hlast : Number.parse? "1.7976931348623157e308".toList
      = some (.ok (.float (.ofBits 0x7FEFFFFFFFFFFFFF))) := by decide +kernel
  have hnext : Number.parse? "-1e400".toList
      = some (.ok (.float (.ofBits 0xFFF0000000000000))) := by decide +kernel
  have hfinite : ¬Numeral.Overflows "1.7976931348623157e308".toList := by
    rw [← hliteral _ _ hlast]
    decide +kernel
  have hlarge : Numeral.Overflows "-1e400".toList := by
    rw [← hliteral _ _ hnext]
    decide +kernel
  obtain ⟨x, hinf, -, -, hpush⟩ := hevaluate "-1e400" hlarge
  obtain ⟨hends, hmachine⟩ := hpush (by decide)
  exact ⟨hfinite, hlarge, x, hinf, hends, hmachine⟩

/-- Read as a literal, the four hundredth power of ten is an infinity. -/
theorem parse?_infinite :
    ∃ n, Number.parse? "1e400".toList = some (.ok n) ∧ n.isFinite = false :=
  ⟨.float (Binary64.ofDecimal 1 400), by decide +kernel, by decide +kernel⟩

end ReversePolish
