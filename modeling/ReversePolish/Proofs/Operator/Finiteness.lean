import ReversePolish.Proofs.Binary64.Denotation
import ReversePolish.Proofs.Evaluation.Reached
import ReversePolish.Proofs.Operator.FloatOperands
/-!
# Elementary functions push finite floats

The operators for elementary functions are built on functions of which nothing is known: any of them
may return an infinity, or what is not a number. None of that reaches the stack. Whatever it was
given and whatever came back, such an operator pushes a finite float or an error.

The unary operators look at their operand as well as at the result, so `Yields` lists all that can
come of one. The binary ones pass on an operand that is not finite and look at the result alone.

An evaluation fails at an operator that leaves an error on top. So it goes on from an elementary
function with a finite float there, or not at all (`pushes_finite_float`).
-/

namespace ReversePolish

/-- A value that is a finite float or an error. -/
inductive Value.FiniteOrError : Value → Prop where
  | finite {x : Float} (h : x.isFinite) : FiniteOrError (.float x)
  | error (code : ValueError) : FiniteOrError (.error code)

namespace ElementaryFunctions

variable {lib : ElementaryFunctions} {op : Operator} {s : Machine} {a b v : Value}

/-! ## Values -/

theorem finiteOrError_finite (x : Float) : (finite x).FiniteOrError := by
  unfold finite
  split
  · next h => exact .finite h
  · exact .error _

/-- What the operator on a function of one float makes of a value. -/
inductive Yields (f : Float → Float) : Value → Value → Prop where
  /-- The operand is a finite number, and so is the result. -/
  | result {a : Value} (hnumeric : a.isNumeric) (hoperand : a.toFloat.isFinite)
      (hresult : (f a.toFloat).isFinite) : Yields f a (.float (f a.toFloat))
  /-- An error hands on the code that it carries. -/
  | carried (code : ValueError) : Yields f (.error code) (.error code)
  /-- Null and strings do not convert. -/
  | unconverted {a : Value} (h : a.isNull ∨ a.isString) : Yields f a (.error .impossibleConversion)
  /-- The operand or the result is not finite. -/
  | infinite {a : Value} (hnumeric : a.isNumeric)
      (h : ¬(a.toFloat.isFinite ∧ (f a.toFloat).isFinite)) : Yields f a (.error .ieee754)

theorem yields_onFinite (f : Float → Float) (a : Value) : Yields f a (onFinite f a) := by
  have hnumber (hnumeric : a.isNumeric) : Yields f a
      (if a.toFloat.isFinite then finite (f a.toFloat) else .error .ieee754) := by
    unfold finite
    split
    · next hoperand =>
      split
      · next hresult => exact .result hnumeric hoperand hresult
      · next hresult => exact .infinite hnumeric fun h => hresult h.2
    · next hoperand => exact .infinite hnumeric fun h => hoperand h.1
  cases a with
  | null => exact .unconverted (.inl rfl)
  | error code => exact .carried code
  | string => exact .unconverted (.inr rfl)
  | boolean | number => exact hnumber rfl

theorem Yields.finiteOrError {f : Float → Float} (h : Yields f a v) : v.FiniteOrError := by
  cases h with
  | result _ _ hresult => exact .finite hresult
  | carried | unconverted | infinite => exact .error _

theorem finiteOrError_onPair {f : Float → Float → Value} (hf : ∀ x y, (f x y).FiniteOrError)
    (a b : Value) : (onPair f a b).FiniteOrError := by
  unfold onPair
  split
  · exact hf _ _
  · exact .error _
  · exact .error _

/-- Two numbers are converted, whether they are finite or not. -/
theorem onPair_of_isNumeric (f : Float → Float → Value) (ha : a.isNumeric) (hb : b.isNumeric) :
    onPair f a b = f a.toFloat b.toFloat := by
  unfold onPair
  simp only [Value.requireFloat_eq_refusal?, Value.refusal?_eq_none.2 ha,
    Value.refusal?_eq_none.2 hb, Option.elim_none]

theorem finiteOrError_checkedRemainder (lib : ElementaryFunctions) (x y : Float) :
    (lib.checkedRemainder x y).FiniteOrError := by
  unfold checkedRemainder
  split
  · exact .error _
  · exact finiteOrError_finite _

/-- Only a divisor that denotes zero is an error of its own. -/
theorem checkedRemainder_eq_divideByZero {x y : Float} :
    lib.checkedRemainder x y = .error .divideByZero ↔ Binary64.rational? y = some 0 := by
  rw [← Binary64.beq_zero_iff]
  unfold checkedRemainder finite
  split
  · next hzero => simp [hzero]
  · next hzero =>
    split <;> simp [hzero]

/-! ## Operators -/

/-- The function of one float behind the operator of a name. -/
def unary? (lib : ElementaryFunctions) : String → Option (Float → Float)
  | "sqrt" => some lib.sqrt
  | "log" => some lib.log
  | "log10" => some lib.log10
  | "exp" => some lib.exp
  | "sin" => some lib.sin
  | "cos" => some lib.cos
  | "tan" => some lib.tan
  | _ => none

/-- The operators for elementary functions. -/
inductive IsElementary (lib : ElementaryFunctions) : Operator → Prop where
  | unary {name : String} {f : Float → Float} (h : lib.unary? name = some f) :
      IsElementary lib (.unary name (onFinite f))
  | fmod : IsElementary lib (.binary "fmod" (onPair lib.checkedRemainder))
  | pow : IsElementary lib (.binary "pow" (onPair fun x y => finite (lib.pow x y)))

theorem isElementary_of_mem (h : op ∈ lib.operators) : IsElementary lib op := by
  revert op
  simp only [operators, List.forall_mem_cons, List.not_mem_nil, false_implies, implies_true,
    and_true]
  exact ⟨.unary rfl, .unary rfl, .unary rfl, .unary rfl, .unary rfl, .unary rfl, .unary rfl, .fmod,
    .pow⟩

/-- In the standard table every one of them is found under its name. -/
theorem find?_of_mem (h : op ∈ lib.operators) :
    (OperatorTable.standard lib).find? op.name = some op := by
  revert op
  simp only [operators, List.forall_mem_cons, List.not_mem_nil, false_implies, implies_true,
    and_true]
  exact ⟨rfl, rfl, rfl, rfl, rfl, rfl, rfl, rfl, rfl⟩

/-- What an operator pushes in the place of its operands, the deepest of which comes first. -/
structure Pushes (lib : ElementaryFunctions) (op : Operator) (operands : List Value) (v : Value) :
    Prop where
  finiteOrError : v.FiniteOrError
  /-- All that can come of an operator on one operand. -/
  unary : ∀ f, lib.unary? op.name = some f → ∃ a, operands = [a] ∧ Yields f a v
  /-- Two numbers cannot be divided if the divisor is a zero of either sign, and only then. -/
  fmod : op.name = "fmod" → ∃ a b, operands = [a, b] ∧ (a.isNumeric → b.isNumeric →
    (v = .error .divideByZero ↔ Binary64.rational? b.toFloat = some 0))

/-- **What is pushed is finite** or an error, whatever the functions return. -/
theorem exists_pushes (hop : op ∈ lib.operators) (hsize : op.arity ≤ s.stack.size) :
    ∃ v, op.apply.run s = .ok () (s.withActive (.value v :: s.stack.active.drop op.arity)) ∧
      lib.Pushes op (s.operands op.arity) v := by
  cases isElementary_of_mem hop with
  | @unary name f hf =>
    obtain ⟨a, hoperands, hrun⟩ := Operator.exists_run_unary name (onFinite f) hsize
    have hyields := yields_onFinite f a
    refine ⟨onFinite f a, hrun, hyields.finiteOrError, ?_, ?_⟩
    · intro f' hf'
      obtain rfl : f = f' := Option.some.inj (hf.symm.trans hf')
      exact ⟨a, hoperands, hyields⟩
    · intro hname
      obtain rfl : name = "fmod" := hname
      cases hf
  | fmod =>
    obtain ⟨a, b, hoperands, hrun⟩ :=
      Operator.exists_run_binary "fmod" (onPair lib.checkedRemainder) hsize
    refine ⟨_, hrun, finiteOrError_onPair lib.finiteOrError_checkedRemainder a b, ?_, ?_⟩
    · intro f hf
      cases hf
    · intro _
      refine ⟨a, b, hoperands, fun ha hb => ?_⟩
      rw [onPair_of_isNumeric _ ha hb]
      exact checkedRemainder_eq_divideByZero
  | pow =>
    obtain ⟨a, b, -, hrun⟩ :=
      Operator.exists_run_binary "pow" (onPair fun x y => finite (lib.pow x y)) hsize
    refine ⟨_, hrun, finiteOrError_onPair (fun _ _ => finiteOrError_finite _) a b, ?_, ?_⟩
    · intro f hf
      cases hf
    · intro hname
      exact absurd (show "pow" = "fmod" from hname) (by decide)

end ElementaryFunctions

/-! ## Evaluations -/

/-- How an evaluation proceeds from the token `t`, which names the operator `op` and to which it has
come in the state `reached`. -/
inductive Proceeds (c : Calculator) (text : String) (mustExist : Bool) (op : Operator) (t : Token)
    (reached : Machine) : Prop where
  /-- A finite float takes the place of the operands. -/
  | on (x : Float) (hfinite : x.isFinite)
      (hrun : (execute c.table mustExist t).run reached
        = .ok () (reached.withActive (.value (.float x) :: reached.stack.active.drop op.arity)))
  /-- There are too few operands, and the evaluation ends at the token. -/
  | short (hsize : reached.stack.size < op.arity)
      (hfailure : (c.evaluate text mustExist).1.failure
        = some (.atOffset (.operator .argumentCountMismatch) t.offset))
      (hleft : (c.evaluate text mustExist).2.machine = reached.dropLoose)
  /-- An error takes the place of the operands, and the evaluation ends at the token. -/
  | spoiled (code : ValueError)
      (hfailure : (c.evaluate text mustExist).1.failure = some (.atOffset (.value code) t.offset))
      (hleft : (c.evaluate text mustExist).2.machine = (reached.withActive
        (.value (.error code) :: reached.stack.active.drop op.arity)).dropLoose)

section

variable {lib : ElementaryFunctions} {op : Operator} {c : Calculator} {text : String}
  {mustExist : Bool} {t : Token} {reached : Machine}

theorem proceeds_of_textReaches (hop : op ∈ lib.operators) (htable : c.table = .standard lib)
    (hreaches : TextReaches c.table c.config.capacity mustExist text c.machine t reached)
    (ht : t.isWord op.name) : Proceeds c text mustExist op t reached := by
  obtain ⟨hkind, htext⟩ := Token.isWord_iff.1 ht
  have hfind : (OperatorTable.standard lib).find? t.text = some op := by
    rw [htext]
    exact ElementaryFunctions.find?_of_mem hop
  obtain ⟨hopen, hclose⟩ := OperatorTable.ne_bracket_of_find? hfind
  rw [← htable] at hfind
  have hexecute : execute c.table mustExist t = (do op.apply; failOnErrorValue : Effect Unit) :=
    execute_of_operator hkind hopen hclose hfind
  by_cases hsize : reached.stack.size < op.arity
  · have hfail : (execute c.table mustExist t).run reached
        = .error (.operator .argumentCountMismatch) reached := by
      rw [hexecute, EStateM.run_bind, Operator.run_apply, if_pos hsize]
    obtain ⟨hfailure, hmachine⟩ := hreaches.stops hfail
    exact .short hsize hfailure (congrArg Machine.dropLoose hmachine)
  · obtain ⟨v, hrun, hpushes⟩ := ElementaryFunctions.exists_pushes hop (Nat.not_lt.1 hsize)
    cases hpushes.finiteOrError with
    | @finite x hfinite =>
      refine .on x hfinite ?_
      rw [hexecute, EStateM.run_bind, hrun]
      exact run_failOnErrorValue _
    | error code =>
      have hfail : (execute c.table mustExist t).run reached = .error (.value code)
          (reached.withActive (.value (.error code) :: reached.stack.active.drop op.arity)) := by
        rw [hexecute, EStateM.run_bind, hrun]
        exact run_failOnErrorValue _
      obtain ⟨hfailure, hmachine⟩ := hreaches.stops hfail
      exact .spoiled code hfailure (congrArg Machine.dropLoose hmachine)

/-- **Elementary functions push finite floats.** Where there are enough operands, the operator of an
elementary function succeeds, whatever functions on floats it is built on, and puts one value in
their place, which is a finite float or an error. So an evaluation that comes to such an operator
goes on with a finite float on top, or it stops there. -/
theorem pushes_finite_float (hop : op ∈ lib.operators) :
    (∀ s : Machine, op.arity ≤ s.stack.size → ∃ v,
      op.apply.run s = .ok () (s.withActive (.value v :: s.stack.active.drop op.arity)) ∧
        lib.Pushes op (s.operands op.arity) v) ∧
    ∀ (c : Calculator) (text : String) (mustExist : Bool) (t : Token) (reached : Machine),
      c.table = .standard lib →
      TextReaches c.table c.config.capacity mustExist text c.machine t reached →
      t.isWord op.name → Proceeds c text mustExist op t reached := by
  constructor
  · intro s hsize
    exact ElementaryFunctions.exists_pushes hop hsize
  · intro c text mustExist t reached htable hreaches ht
    exact proceeds_of_textReaches hop htable hreaches ht

/-- An exponential that overflows does not get onto the stack, and ends a text. The remainder of an
infinity by a negative zero is a division by zero. -/
theorem pushes_finite_float_overflow :
    let infinity : Float := .ofBits 0x7FF0000000000000
    let lib : ElementaryFunctions := { ElementaryFunctions.standard with exp := fun _ => infinity }
    let exp : Operator := .unary "exp" (ElementaryFunctions.onFinite lib.exp)
    let fmod : Operator := .binary "fmod" (ElementaryFunctions.onPair lib.checkedRemainder)
    let divided : Machine := { stack :=
      ⟨[.value (.float (.ofBits 0x8000000000000000)), .value (.float infinity), .value .null], []⟩ }
    let c := Calculator.new {} lib
    let reached := c.machine.push (.integer 1)
    exp ∈ lib.operators ∧ fmod ∈ lib.operators ∧ fmod.arity ≤ divided.stack.size ∧
      fmod.apply.run divided
        = .ok () (divided.withActive [.value (.error .divideByZero), .value .null]) ∧
      exp.arity ≤ reached.stack.size ∧
      exp.apply.run reached = .ok () (reached.withActive [.value (.error .ieee754)]) ∧
      c.table = .standard lib ∧
      TextReaches c.table c.config.capacity false "1i exp 2i" c.machine ⟨.word, "exp", 3⟩ reached ∧
      Proceeds c "1i exp 2i" false exp ⟨.word, "exp", 3⟩ reached := by
  intro infinity lib exp fmod divided c reached
  have hexp : exp ∈ lib.operators :=
    List.mem_of_find?_eq_some (rfl : (⟨lib.operators⟩ : OperatorTable).find? "exp" = some exp)
  have hfmod : fmod ∈ lib.operators :=
    List.mem_of_find?_eq_some (rfl : (⟨lib.operators⟩ : OperatorTable).find? "fmod" = some fmod)
  have htwo : fmod.arity ≤ divided.stack.size := by decide
  have hone : exp.arity ≤ reached.stack.size := by decide
  have hdivided : fmod.apply.run divided
      = .ok () (divided.withActive [.value (.error .divideByZero), .value .null]) := by
    obtain ⟨v, hrun, hpushes⟩ := (pushes_finite_float hfmod).1 divided htwo
    obtain ⟨a, b, hoperands, hzero⟩ := hpushes.fmod rfl
    obtain ⟨hdividend, hrest⟩ := List.cons.inj hoperands
    obtain rfl : .float infinity = a := hdividend
    obtain rfl : .float (.ofBits 0x8000000000000000) = b := (List.cons.inj hrest).1
    rw [hrun, (hzero rfl rfl).2 rfl]
    rfl
  have hinfinite : exp.apply.run reached
      = .ok () (reached.withActive [.value (.error .ieee754)]) := by
    obtain ⟨v, hrun, hpushes⟩ := (pushes_finite_float hexp).1 reached hone
    obtain ⟨a, hoperands, hyields⟩ := hpushes.unary _ rfl
    obtain rfl : .integer 1 = a := (List.cons.inj hoperands).1
    cases hyields with
    | result _ _ hresult => exact absurd hresult (by decide)
    | unconverted h => simp [Value.isNull, Value.isString] at h
    | infinite => exact hrun
  have hdrain : (Lexer.start "1i exp 2i").drain =
      ⟨[⟨.number (.integer 1), "1i", 0⟩, ⟨.word, "exp", 3⟩, ⟨.number (.integer 2), "2i", 7⟩], none,
        ⟨⟨9, []⟩, true⟩⟩ := by cbv
  have hreaches : TextReaches c.table c.config.capacity false "1i exp 2i" c.machine
      ⟨.word, "exp", 3⟩ reached := by
    refine ⟨by decide, ?_⟩
    rw [hdrain]
    exact .later rfl (.here ..)
  exact ⟨hexp, hfmod, htwo, hdivided, hone, hinfinite, rfl, hreaches,
    (pushes_finite_float hexp).2 c _ _ _ _ rfl hreaches rfl⟩

end

end ReversePolish
