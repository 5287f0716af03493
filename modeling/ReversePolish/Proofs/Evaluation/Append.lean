import ReversePolish.Calculator
import ReversePolish.Proofs.Lexing.Append
import ReversePolish.Proofs.Variable.Pruning
/-!
# One text or two

A host may hand in a script at once or piece by piece. A run over two lists of tokens is the run
over the first and, if that has not failed, the run over the second from where the first has ended;
where a token stands makes no difference to what it does. With what the lexer makes of two texts
with a blank between them this carries over to texts (`runText_append`).

Two calls differ from one in a single point: at the end of the first call the loose variables are
dropped. Where there are none, two calls come to what one call comes to (`evaluate_append`).
-/

namespace ReversePolish

/-! ## Runs -/

/-- The same record for a token that stands `n` bytes further behind the beginning. -/
def Trace.shift (n : Nat) (r : Trace) : Trace := { r with token := r.token.shift n }

namespace Run

/-- The same run over a text that stands `n` bytes further behind the beginning. -/
def shift (n : Nat) (r : Run) : Run :=
  { r with
    failure := r.failure.map (Diagnostic.shift n)
    trace := r.trace.map (Trace.shift n) }

/-- A run that goes on where another one has ended, unless that one has failed. -/
def andThen (r : Run) (next : Machine → Run) : Run :=
  match r.failure with
  | some _ => r
  | none =>
    let after := next r.machine
    { after with trace := r.trace ++ after.trace }

theorem andThen_of_none {r : Run} (h : r.failure = none) (next : Machine → Run) :
    r.andThen next = { next r.machine with trace := r.trace ++ (next r.machine).trace } := by
  simp only [andThen, h]

end Run

section

variable {table : OperatorTable} {mustExist : Bool}

variable (table mustExist) in
/-- The run over tokens in front of others is a run of its own. -/
theorem runTokens_append (first second : List Token) (s : Machine) :
    runTokens table mustExist (first ++ second) s
      = (runTokens table mustExist first s).andThen (runTokens table mustExist second) := by
  induction first generalizing s with
  | nil => rfl
  | cons t first ih =>
    simp only [List.cons_append, runTokens]
    cases (execute table mustExist t).run s with
    | error failure final => rfl
    | ok _ reached =>
      simp only [ih]
      cases hfailure : (runTokens table mustExist first reached).failure with
      | some d => simp only [Run.andThen, hfailure]
      | none => simp only [Run.andThen, hfailure, List.cons_append]

/-- Where a token stands makes no difference to what it does. -/
theorem execute_shift (n : Nat) (t : Token) :
    execute table mustExist (t.shift n) = execute table mustExist t := rfl

theorem runTokens_shift (n : Nat) (tokens : List Token) (s : Machine) :
    runTokens table mustExist (tokens.map (Token.shift n)) s
      = (runTokens table mustExist tokens s).shift n := by
  induction tokens generalizing s with
  | nil => rfl
  | cons t tokens ih =>
    simp only [List.map_cons, runTokens, execute_shift]
    cases (execute table mustExist t).run s with
    | error failure final => rfl
    | ok _ reached =>
      simp only [ih]
      rfl

theorem runText_eq {capacity : Nat} {text : String} (h : text.utf8ByteSize ≤ capacity)
    (s : Machine) :
    runText table capacity mustExist text s =
      let run := runTokens table mustExist (Lexer.start text).drain.tokens s
      { run with failure := run.failure.or (Lexer.start text).drain.failure } := by
  simp only [runText, Lexer.ofText_eq h]

/-- A text of one token comes to what the token comes to. -/
theorem runText_of_token {capacity : Nat} {text : String} {t : Token} {s s' : Machine}
    (h : text.utf8ByteSize ≤ capacity) (htokens : (Lexer.start text).drain.tokens = [t])
    (hfailure : (Lexer.start text).drain.failure = none)
    (hrun : (execute table mustExist t).run s = .ok () s') :
    (runText table capacity mustExist text s).failure = none ∧
      (runText table capacity mustExist text s).machine = s' := by
  have hall : runTokens table mustExist [t] s = ⟨none, s', [⟨t, s.stack.depth⟩]⟩ := by
    simp only [runTokens, hrun]
  rw [runText_eq h, htokens, hfailure]
  simp only [hall]
  exact ⟨rfl, trivial⟩

/-- A text that is too long is refused, and nothing is executed. -/
theorem runText_refused {capacity : Nat} {text : String} (h : ¬text.utf8ByteSize ≤ capacity)
    (s : Machine) :
    runText table capacity mustExist text s
      = ⟨some (.atOffset (.processing .inputBufferOverflow) capacity), s, []⟩ := by
  have hrefused : Lexer.ofText text capacity
      = .error (.atOffset (.processing .inputBufferOverflow) capacity) :=
    if_pos (Nat.lt_of_not_le h)
  simp only [runText, hrefused]

/-- What fits into the capacity as a whole fits in parts. -/
theorem fits_of_append {capacity : Nat} {front back : String} {w : Char}
    (h : (front.push w ++ back).utf8ByteSize ≤ capacity) :
    front.utf8ByteSize ≤ capacity ∧ back.utf8ByteSize ≤ capacity := by
  rw [String.utf8ByteSize_append, String.utf8ByteSize_push] at h
  omega

/-- **Two texts with a blank between them** run like one text after the other, if the first one
comes to its end without a failure. -/
theorem runText_append {capacity : Nat} {front back : String} {w : Char}
    (hw : Text.isBlank w = true) (hlength : (front.push w ++ back).utf8ByteSize ≤ capacity)
    {s : Machine} (h : (runText table capacity mustExist front s).failure = none) :
    runText table capacity mustExist (front.push w ++ back) s
      = (runText table capacity mustExist front s).andThen fun reached =>
          (runText table capacity mustExist back reached).shift (front.push w).utf8ByteSize := by
  obtain ⟨hfront, hback⟩ := fits_of_append hlength
  rw [runText_eq hfront] at h ⊢
  rw [runText_eq hlength]
  obtain ⟨hrun, hlexer⟩ := Option.or_eq_none_iff.1 h
  obtain ⟨htokens, hfailure⟩ := Lexer.drain_append hw hlexer back
  have hlong := runTokens_append table mustExist (Lexer.start front).drain.tokens
    ((Lexer.start back).drain.tokens.map (Token.shift (front.push w).utf8ByteSize)) s
  rw [Run.andThen_of_none hrun, runTokens_shift] at hlong
  rw [Run.andThen_of_none h, runText_eq hback]
  simp only [htokens, hfailure, hlong, Run.shift, Option.map_or]

end

/-! ## Calls -/

/-- **A script may be cut at any blank.** The tokens of two texts with a blank between them are
those of the one and then those of the other. If the first text comes to its end and leaves no
variable loose, evaluating both at once leaves the calculator that evaluating one after the other
leaves, and comes to the same end; only where it has failed is told from the beginning of the whole
text. -/
theorem evaluate_append (c : Calculator) {front back : String} {w : Char}
    (hw : Text.isBlank w = true)
    (hlength : (front.push w ++ back).utf8ByteSize ≤ c.config.capacity) (mustExist : Bool) :
    let n := (front.push w).utf8ByteSize
    (∃ l₁ l₂ l, Lexer.ofText front c.config.capacity = .ok l₁ ∧
      Lexer.ofText back c.config.capacity = .ok l₂ ∧
      Lexer.ofText (front.push w ++ back) c.config.capacity = .ok l ∧
      (l₁.drain.failure = none →
        l.drain.tokens = l₁.drain.tokens ++ l₂.drain.tokens.map (Token.shift n) ∧
          l.drain.failure = l₂.drain.failure.map (Diagnostic.shift n))) ∧
      let first := c.evaluate front mustExist
      let second := first.2.evaluate back mustExist
      let whole := c.evaluate (front.push w ++ back) mustExist
      first.1.failure = none →
        (runText c.table c.config.capacity mustExist front c.machine).machine.looseCount = 0 →
        whole.1.failure = second.1.failure.map (Diagnostic.shift n) ∧
          whole.2 = { second.2 with failure := second.2.failure.map (Diagnostic.shift n) } ∧
          whole.1.trace = first.1.trace ++ second.1.trace.map (Trace.shift n) := by
  intro n
  obtain ⟨hfront, hback⟩ := fits_of_append hlength
  refine ⟨⟨_, _, _, Lexer.ofText_eq hfront, Lexer.ofText_eq hback, Lexer.ofText_eq hlength,
    fun h => Lexer.drain_append hw h back⟩, ?_⟩
  intro first second whole hfirst hloose
  have hrun : (runText c.table c.config.capacity mustExist front c.machine).failure = none := hfirst
  have hreached : first.2.machine
      = (runText c.table c.config.capacity mustExist front c.machine).machine :=
    Machine.dropLoose_of_looseCount hloose
  have hwhole := runText_append hw hlength hrun
  rw [Run.andThen_of_none hrun, ← hreached] at hwhole
  simp only [whole, Calculator.evaluate, hwhole]
  exact ⟨rfl, rfl, rfl⟩

/-- The second text fails three bytes further on than its words alone would say: the blank in
between takes up three. -/
theorem evaluate_append_em_space :
    Text.isBlank '\u2003' = true ∧
      ("7i &x =".push '\u2003' ++ "2u $y").utf8ByteSize ≤ 256 ∧
      ((Calculator.new {}).evaluate "7i &x =" false).1.failure = none ∧
      (runText (Calculator.new {}).table 256 false "7i &x =" {}).machine.looseCount = 0 ∧
      let second := ((Calculator.new {}).evaluate "7i &x =" false).2.evaluate "2u $y" false
      let whole := (Calculator.new {}).evaluate ("7i &x =".push '\u2003' ++ "2u $y") false
      second.1.failure = some (.atOffset (.processing .variableDoesNotExist) 3) ∧
        whole.1.failure = second.1.failure.map (Diagnostic.shift 10) ∧
        whole.2 = { second.2 with failure := second.2.failure.map (Diagnostic.shift 10) } := by
  have hw : Text.isBlank '\u2003' = true := by decide
  have hlength : ("7i &x =".push '\u2003' ++ "2u $y").utf8ByteSize ≤ 256 := by decide
  have hfirst : Lexer.ofText "7i &x =" 256 = .ok ⟨⟨0, "7i &x =".toList⟩, false⟩ :=
    if_neg (by decide)
  have hdrain : Lexer.drain ⟨⟨0, "7i &x =".toList⟩, false⟩ =
      ⟨[⟨.number (.integer 7), "7i", 0⟩, ⟨.reference, "x", 3⟩, ⟨.word, "=", 6⟩], none,
        ⟨⟨7, []⟩, true⟩⟩ := by cbv
  have hsecond : Lexer.ofText "2u $y" 256 = .ok ⟨⟨0, "2u $y".toList⟩, false⟩ :=
    if_neg (by decide)
  have hdrain' : Lexer.drain ⟨⟨0, "2u $y".toList⟩, false⟩ =
      ⟨[⟨.number (.unsigned 2), "2u", 0⟩, ⟨.boundReference, "y", 3⟩], none,
        ⟨⟨5, []⟩, true⟩⟩ := by cbv
  have hends : ((Calculator.new {}).evaluate "7i &x =" false).1.failure = none := by
    simp only [Calculator.evaluate, Calculator.new, runText, hfirst, hdrain]
    rfl
  have hloose : (runText (Calculator.new {}).table 256 false "7i &x =" {}).machine.looseCount
      = 0 := by
    simp only [Calculator.new, runText, hfirst, hdrain]
    rfl
  have hfails : (((Calculator.new {}).evaluate "7i &x =" false).2.evaluate
      "2u $y" false).1.failure
        = some (.atOffset (.processing .variableDoesNotExist) 3) := by
    simp only [Calculator.evaluate, Calculator.new, runText, hfirst, hdrain, hsecond, hdrain']
    rfl
  have happend := (evaluate_append (Calculator.new {}) hw hlength false).2 hends hloose
  exact ⟨hw, hlength, hends, hloose, hfails, happend.1, happend.2.1⟩

end ReversePolish
