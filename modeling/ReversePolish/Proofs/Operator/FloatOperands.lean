import ReversePolish.Proofs.Operator.Outcome
/-!
# Operators on floats and the errors of their operands

`pow`, `fmod` and `map` turn their operands into floats one after the other, the deepest first. The
first operand that is no number ends it, and its code is what the operator reports: an error hands
back the code that it carries, and a null or a string fails to convert.

So an error among the operands is reported if no null and no string lies below it
(`reports_first_refusal`). One that does gets in front of the error, and what is reported is a
conversion that failed and not the error that was carried along.
-/

namespace ReversePolish

/-! ## Refused operands -/

/-- The code with which a value is refused as an operand, if it is no number. -/
def Value.refusal? : Value → Option ValueError
  | .error code => some code
  | .null | .string _ => some .impossibleConversion
  | .boolean _ | .number _ => none

/-- The values of the `n` top slots, the deepest first. -/
def Machine.operands (s : Machine) (n : Nat) : List Value :=
  ((s.stack.active.take n).map s.see).reverse

namespace Value

variable {v : Value} {operands : List Value} {code : ValueError}

theorem requireFloat_eq_refusal? (v : Value) :
    v.requireFloat = v.refusal?.elim (.ok v.toFloat) .error := by
  cases v <;> rfl

theorem refusal?_eq_none : v.refusal? = none ↔ v.isNumeric := by
  cases v <;> simp [refusal?, isNumeric, number?]

/-- The first refusal is that of the first operand that is no number. -/
theorem exists_of_findSome? (h : operands.findSome? refusal? = some code) :
    ∃ v, operands.find? (fun v => !v.isNumeric) = some v ∧ v.refusal? = some code := by
  induction operands with
  | nil => cases h
  | cons v rest ih =>
    cases hv : v.isNumeric with
    | true =>
      rw [List.findSome?_cons, refusal?_eq_none.2 hv] at h
      rw [List.find?_cons_of_neg (by simp [hv])]
      exact ih h
    | false =>
      refine ⟨v, List.find?_cons_of_pos (by simp [hv]), ?_⟩
      cases hr : v.refusal? with
      | none => simp [refusal?_eq_none.1 hr] at hv
      | some code' => rwa [List.findSome?_cons, hr] at h

/-- An error among the operands is a refusal among them. -/
theorem exists_findSome? (h : ∃ v ∈ operands, v.isError) :
    ∃ code, operands.findSome? refusal? = some code := by
  obtain ⟨v, hv, herror⟩ := h
  rw [← Option.isSome_iff_exists, List.findSome?_isSome_iff]
  refine ⟨v, hv, ?_⟩
  cases v <;> first | rfl | cases herror

/-- **The first refusal** is the code of an error operand if an error is the first that is no
number, or else only if that code is that of a failed conversion. -/
theorem error_mem_iff (h : operands.find? (fun v => !v.isNumeric) = some v)
    (hcode : v.refusal? = some code) :
    .error code ∈ operands ↔ v.isError ∨ .error .impossibleConversion ∈ operands := by
  cases v with
  | boolean | number => cases hcode
  | error code' =>
    cases hcode
    simp [isError, List.mem_of_find?_eq_some h]
  | null | string =>
    cases hcode
    simp [isError]

end Value

/-! ## Operators on one and on two operands -/

namespace Operator

variable (name : String) {s : Machine}

/-- A unary operator puts a value in the place of its operand. -/
theorem exists_run_unary (f : Value → Value) (hsize : 1 ≤ s.stack.size) :
    ∃ a, s.operands 1 = [a] ∧ (Operator.unary name f).apply.run s
      = .ok () (s.withActive (.value (f a) :: s.stack.active.drop 1)) := by
  obtain ⟨a, rest, hactive, -⟩ := Stack.exists_of_lt_size hsize
  have harity : ¬s.stack.size < (Operator.unary name f).arity := Nat.not_lt.2 hsize
  refine ⟨s.see a, by rw [Machine.operands, hactive]; rfl, ?_⟩
  rw [run_apply, if_neg harity, run_unary hactive, hactive]
  rfl

/-- A binary operator puts a value in the place of its two operands. -/
theorem exists_run_binary (f : Value → Value → Value) (hsize : 2 ≤ s.stack.size) :
    ∃ a b, s.operands 2 = [a, b] ∧ (Operator.binary name f).apply.run s
      = .ok () (s.withActive (.value (f a b) :: s.stack.active.drop 2)) := by
  obtain ⟨b, a, rest, hactive⟩ := Stack.exists_of_two_le hsize
  have harity : ¬s.stack.size < (Operator.binary name f).arity := Nat.not_lt.2 hsize
  refine ⟨s.see a, s.see b, by rw [Machine.operands, hactive]; rfl, ?_⟩
  rw [run_apply, if_neg harity, run_binary hactive, hactive]
  rfl

end Operator

/-! ## The operators -/

section

variable {s : Machine} {slot : Slot} {n : Nat} {rest : List Value} {code : ValueError}

namespace ElementaryFunctions

theorem onPair_of_refusal {f : Float → Float → Value} {a b : Value}
    (h : [a, b].findSome? Value.refusal? = some code) : onPair f a b = .error code := by
  unfold onPair
  simp only [Value.requireFloat_eq_refusal?]
  cases ha : a.refusal? with
  | some code' =>
    rw [List.findSome?_cons, ha] at h
    cases h
    rfl
  | none =>
    rw [List.findSome?_cons, ha] at h
    cases hb : b.refusal? with
    | some code' =>
      rw [List.findSome?_cons, hb] at h
      cases h
      rfl
    | none =>
      rw [List.findSome?_cons, hb] at h
      cases h

/-- An operator on two floats pushes the first refusal in the place of both. -/
theorem run_onPair_of_refusal {name : String} {f : Float → Float → Value} (hsize : 2 ≤ s.stack.size)
    (h : (s.operands 2).findSome? Value.refusal? = some code) :
    (Operator.binary name (onPair f)).apply.run s
      = .ok () (s.withActive (.value (.error code) :: s.stack.active.drop 2)) := by
  obtain ⟨a, b, hoperands, hrun⟩ := Operator.exists_run_binary name (onPair f) hsize
  rw [hoperands] at h
  rw [hrun, onPair_of_refusal h]

end ElementaryFunctions

namespace Builtin

/-- Converting one operand after the other fails with the first refusal. -/
theorem run_floatAt_bind {f : Float → Effect Unit} (hslot : s.stack.active[n]? = some slot)
    (h : (s.see slot :: rest).findSome? Value.refusal? = some code)
    (hf : rest.findSome? Value.refusal? = some code → ∀ x, (f x).run s = .error (.value code) s) :
    (floatAt (n + 1) >>= f).run s = .error (.value code) s := by
  rw [EStateM.run_bind, run_floatAt hslot, Value.requireFloat_eq_refusal?]
  rw [List.findSome?_cons] at h
  cases hr : (s.see slot).refusal? with
  | some code' =>
    rw [hr] at h
    cases h
    rfl
  | none =>
    rw [hr] at h
    exact hf h _

/-- `map` fails with the first refusal, and leaves the operands. -/
theorem run_map_of_refusal (hsize : 5 ≤ s.stack.size)
    (h : (s.operands 5).findSome? Value.refusal? = some code) :
    map.run s = .error (.value code) s := by
  obtain ⟨toHigh, _, hactive, hfour⟩ := Stack.exists_of_lt_size hsize
  obtain ⟨toLow, _, rfl, hthree⟩ := Stack.exists_of_lt_size hfour
  obtain ⟨fromHigh, _, rfl, htwo⟩ := Stack.exists_of_lt_size hthree
  obtain ⟨fromLow, _, rfl, hone⟩ := Stack.exists_of_lt_size htwo
  obtain ⟨v, below, rfl, -⟩ := Stack.exists_of_lt_size hone
  have hslot (n : Nat) : s.stack.active[n]?
      = (toHigh :: toLow :: fromHigh :: fromLow :: v :: below)[n]? := by rw [hactive]
  have hoperands : s.operands 5 = [v, fromLow, fromHigh, toLow, toHigh].map s.see := by
    rw [Machine.operands, hactive]
    rfl
  rw [hoperands] at h
  refine run_floatAt_bind (hslot 4) h fun h _ => ?_
  refine run_floatAt_bind (hslot 3) h fun h _ => ?_
  refine run_floatAt_bind (hslot 2) h fun h _ => ?_
  refine run_floatAt_bind (hslot 1) h fun h _ => ?_
  refine run_floatAt_bind (hslot 0) h fun h _ => ?_
  cases h

end Builtin

end

/-- What comes of an operator that reports a code: `map` fails and changes nothing, and the others
push it as an error in the place of their operands. -/
def Operator.reporting (op : Operator) (s : Machine) (code : ValueError) :
    EStateM.Result Failure Machine Unit :=
  if op.name = "map" then .error (.value code) s
  else .ok () (s.withActive (.value (.error code) :: s.stack.active.drop op.arity))

/-- **The first refusal is reported.** If there is an error among the operands of `pow`, `fmod` or
`map`, what they report is the code of the first operand that is no number: its own if that is an
error, and that of a failed conversion if it is a null or a string. So the code is one that an error
among the operands carries if and only if the first operand that is no number is an error, unless
one of the errors happens to be a failed conversion. -/
theorem reports_first_refusal {lib : ElementaryFunctions} {name : String} {op : Operator}
    {s : Machine} (hname : name = "pow" ∨ name = "fmod" ∨ name = "map")
    (hop : (OperatorTable.standard lib).find? name = some op) (hsize : op.arity ≤ s.stack.size)
    (herror : ∃ v ∈ s.operands op.arity, v.isError) :
    let operands := s.operands op.arity
    ∃ v code, operands.find? (fun v => !v.isNumeric) = some v ∧ v.refusal? = some code ∧
      op.apply.run s = op.reporting s code ∧
      (.error code ∈ operands ↔ v.isError ∨ .error .impossibleConversion ∈ operands) := by
  intro operands
  obtain ⟨code, hfirst⟩ := Value.exists_findSome? herror
  obtain ⟨v, hv, hcode⟩ := Value.exists_of_findSome? hfirst
  refine ⟨v, code, hv, hcode, ?_, Value.error_mem_iff hv hcode⟩
  rcases hname with rfl | rfl | rfl
  · obtain rfl := Option.some.inj hop
    exact ElementaryFunctions.run_onPair_of_refusal hsize hfirst
  · obtain rfl := Option.some.inj hop
    exact ElementaryFunctions.run_onPair_of_refusal hsize hfirst
  · obtain rfl := Option.some.inj hop
    rw [Operator.run_apply, if_neg (Nat.not_lt.2 hsize)]
    exact Builtin.run_map_of_refusal hsize hfirst

/-- With a number below it, an error is reported for what it is, whatever comes after it. -/
theorem reports_first_refusal_carried :
    let op : Operator := ⟨"map", 5, Builtin.map⟩
    let s : Machine := { stack := ⟨[.value .null, .value (.string "a"), .value (.error .divideByZero),
      .value (.error .isNull), .value (.integer 7)], []⟩ }
    (OperatorTable.standard .standard).find? "map" = some op ∧ op.arity ≤ s.stack.size ∧
      (∃ v ∈ s.operands op.arity, v.isError) ∧ op.apply.run s = .error (.value .isNull) s ∧
      .error .isNull ∈ s.operands op.arity := by
  intro op s
  have hop : (OperatorTable.standard .standard).find? "map" = some op := rfl
  have hsize : op.arity ≤ s.stack.size := by decide
  have herror : ∃ v ∈ s.operands op.arity, v.isError := ⟨.error .isNull, by decide, rfl⟩
  obtain ⟨v, code, hv, hcode, hrun, hcarried⟩ :=
    reports_first_refusal (.inr (.inr rfl)) hop hsize herror
  obtain rfl : Value.error .isNull = v := Option.some.inj hv
  obtain rfl : ValueError.isNull = code := Option.some.inj hcode
  exact ⟨hop, hsize, herror, hrun, hcarried.2 (.inl rfl)⟩

/-- A null below an error hides it: the conversion of the null is reported. -/
theorem reports_first_refusal_hidden :
    let op : Operator := .binary "pow"
      (ElementaryFunctions.onPair fun x y => ElementaryFunctions.finite (Float.pow x y))
    let s : Machine := { stack := ⟨[.value (.error .divideByZero), .value .null], []⟩ }
    (OperatorTable.standard .standard).find? "pow" = some op ∧
      op.apply.run s = .ok () (s.withActive [.value (.error .impossibleConversion)]) ∧
      s.operands op.arity = [.null, .error .divideByZero] ∧
      .error .impossibleConversion ∉ s.operands op.arity :=
  ⟨rfl, rfl, rfl, by decide⟩

end ReversePolish
