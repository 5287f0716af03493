import ReversePolish.Proofs.Value.NewErrors
/-!
# The rules of arithmetic

What comes of an operation on two values is told by a list of rules: the first one that applies
decides. Most of them refuse the operands, each for a reason of its own, and their order says which
reason wins. Errors come first, the left one before the right one, then null, then strings. What is
left are two numbers, and the left one sets the representation, a boolean counting as an integer.
The right one must convert to it, and it is the converted number, not the one that was given, which
must not be a zero or an infinity to divide by.

Where none of this applies the result is a number in the representation of the left operand. So no
operation changes a representation, and none makes up an error that is not in the list
(`arithmetic_rule`).
-/

namespace ReversePolish

/-- The representation of a number. -/
inductive Representation where
  | integer
  | unsigned
  | float
  deriving DecidableEq, Repr

namespace Number

def representation : Number → Representation
  | .integer _ => .integer
  | .unsigned _ => .unsigned
  | .float _ => .float

/-- Whether a number is a zero, of either sign. -/
def isZero : Number → Bool
  | .integer i => i == 0
  | .unsigned u => u == 0
  | .float x => x == 0.0

/-- Whether a number is finite, as every word is. -/
def isFinite : Number → Bool
  | .integer _ | .unsigned _ => true
  | .float x => x.isFinite

end Number

namespace Value

def isBoolean : Value → Bool
  | .boolean _ => true
  | _ => false

/-- The representation that a value has as an operand; a boolean counts as an integer. -/
def representation? (v : Value) : Option Representation := v.number?.map Number.representation

/-- The checked conversion to a representation. -/
def convert (v : Value) : Representation → Except ValueError Number
  | .integer => v.checkedInt.map .integer
  | .unsigned => v.checkedUnsigned.map .unsigned
  | .float => v.checkedFloat.map .float

/-- The right operand `b` as it is used, in the representation of `a`. -/
def operand (a b : Value) : Except ValueError Number :=
  match a.representation? with
  | some target => b.convert target
  | none => .error .impossibleConversion

end Value

/-! ## The list of rules -/

/-- A rule for the result of an operation on two values. -/
inductive ArithmeticRule where
  | leftError
  | rightError
  | nullOperand
  | booleanWithString
  | twoStrings
  | oneString
  | conversion
  | zeroDivisor
  | infiniteDivisor
  | number
  deriving DecidableEq, Repr

namespace ArithmeticRule

/-- The rules in the order in which they are looked at. -/
def inOrder : List ArithmeticRule :=
  [leftError, rightError, nullOperand, booleanWithString, twoStrings, oneString, conversion,
    zeroDivisor, infiniteDivisor, number]

/-- Whether a rule applies to an operation on `a` and `b`. -/
def applies (op : Operation) (a b : Value) : ArithmeticRule → Bool
  | leftError => a.isError
  | rightError => b.isError
  | nullOperand => a.isNull || b.isNull
  | booleanWithString => (a.isBoolean && b.isString) || (a.isString && b.isBoolean)
  | twoStrings => a.isString && b.isString
  | oneString => a.isString || b.isString
  | conversion => (a.operand b).toOption.isNone
  | zeroDivisor => op.divides && (a.operand b).toOption.any Number.isZero
  | infiniteDivisor =>
    op.divides && a.representation? == some .float && (a.operand b).toOption.any fun d => !d.isFinite
  | number => true

/-- The rule that decides. -/
def first? (op : Operation) (a b : Value) : Option ArithmeticRule :=
  inOrder.find? (applies op a b)

/-- What a rule says about the result. -/
def Gives (op : Operation) (a b : Value) : ArithmeticRule → Value → Prop
  | leftError, result => result = a
  | rightError, result => result = b
  | nullOperand, result => result = .error .isNull
  | booleanWithString, result => result = .error .invalidOperation
  | twoStrings, result =>
    if op = .add then ∃ s t, a = .string s ∧ b = .string t ∧ result = .string (s ++ t)
    else result = .error .invalidOperation
  | oneString, result =>
    result = .error (if op = .add then .typeMismatch else .invalidOperation)
  | conversion, result => ∃ code, a.operand b = .error code ∧ result = .error code
  | zeroDivisor, result => result = .error .divideByZero
  | infiniteDivisor, result => result = .error .ieee754
  | number, result => ∃ n, result = .number n ∧ a.representation? = some n.representation

end ArithmeticRule

/-! ## Numbers -/

namespace Number

/-- What comes of an operation once the right operand is converted: it is refused as a divisor, or
the result keeps the representation. -/
inductive Computed (op : Operation) (target : Representation) (divisor : Number) :
    Except ValueError Number → Prop where
  | zero (hdivides : op.divides = true) (hzero : divisor.isZero = true) :
      Computed op target divisor (.error .divideByZero)
  | infinite (hdivides : op.divides = true) (hzero : divisor.isZero = false)
      (htarget : target = .float) (hfinite : divisor.isFinite = false) :
      Computed op target divisor (.error .ieee754)
  | number (result : Number)
      (hzero : (op.divides && divisor.isZero) = false)
      (hfinite : (op.divides && !divisor.isFinite) = false)
      (hresult : result.representation = target) : Computed op target divisor (.ok result)

theorem computed_integers (op : Operation) (a b : Int64) :
    Computed op .integer (.integer b) ((op.onIntegers a b).map .integer) := by
  unfold Operation.onIntegers
  split
  · next h =>
    rw [Bool.and_eq_true] at h
    exact .zero h.1 h.2
  · next h => exact .number _ (by simpa [isZero] using h) (by simp [isFinite]) rfl

theorem computed_unsigned (op : Operation) (a b : UInt64) :
    Computed op .unsigned (.unsigned b) ((op.onUnsigned a b).map .unsigned) := by
  unfold Operation.onUnsigned
  split
  · next h =>
    rw [Bool.and_eq_true] at h
    exact .zero h.1 h.2
  · next h => exact .number _ (by simpa [isZero] using h) (by simp [isFinite]) rfl

theorem computed_floats (op : Operation) (a b : Float) :
    Computed op .float (.float b) ((op.onFloats a b).map .float) := by
  unfold Operation.onFloats
  split
  · next h =>
    rw [Bool.and_eq_true] at h
    exact .zero h.1 h.2
  · next hzero =>
    split
    · next h =>
      rw [Bool.and_eq_true, Bool.not_eq_true'] at h
      exact .infinite h.1 (by simpa [isZero, h.1] using hzero) rfl h.2
    · next hfinite =>
      exact .number _ (by simpa [isZero] using hzero) (by simpa [isFinite] using hfinite) rfl

/-- **An operation on numbers** converts the right one first, and gives the code of the conversion
if it fails. -/
theorem arithmetic_cases (op : Operation) (n m : Number) :
    match (Value.number m).convert n.representation with
    | .error code => Number.arithmetic op n m = .error code
    | .ok d => Computed op n.representation d (Number.arithmetic op n m) := by
  cases n with
  | integer i =>
    have hconvert : (Value.number m).convert .integer = m.checkedInt.map .integer := rfl
    simp only [representation, hconvert, Number.arithmetic]
    cases m.checkedInt with
    | error code => rfl
    | ok j => exact computed_integers op i j
  | unsigned u =>
    have hconvert : (Value.number m).convert .unsigned = m.checkedUnsigned.map .unsigned := rfl
    simp only [representation, hconvert, Number.arithmetic]
    cases m.checkedUnsigned with
    | error code => rfl
    | ok w => exact computed_unsigned op u w
  | float x => exact computed_floats op x m.toFloat

end Number

/-! ## Values -/

namespace Value

variable {op : Operation} {a b : Value} {n m : Number}

theorem checkedNumber_of_number? (h : a.number? = some n) : a.checkedNumber = .ok n := by
  simp only [checkedNumber, h]

theorem representation?_of_number? (h : a.number? = some n) :
    a.representation? = some n.representation := by
  rw [representation?, h]
  rfl

/-- The right operand is the number behind it, converted to the representation of the left one. -/
theorem operand_of_number? (ha : a.number? = some n) (hb : b.number? = some m) :
    a.operand b = (Value.number m).convert n.representation := by
  have htarget := representation?_of_number? ha
  have hchecked : b.checkedNumber = (Value.number m).checkedNumber := checkedNumber_of_number? hb
  simp only [operand, htarget]
  cases n.representation with
  | integer => simp only [convert, checkedInt, hchecked]
  | unsigned => simp only [convert, checkedUnsigned, hchecked]
  | float => simp only [convert, checkedFloat, hchecked]

theorem arithmetic_of_number? (ha : a.number? = some n) (hb : b.number? = some m) :
    arithmetic op a b = ofExcept .number (Number.arithmetic op n m) := by
  have hnumbers : (do (← a.checkedNumber).arithmetic op (← b.checkedNumber) :
      Except ValueError Number) = Number.arithmetic op n m := by
    rw [checkedNumber_of_number? ha, checkedNumber_of_number? hb]
    rfl
  rw [← hnumbers]
  -- a value with a number behind it is a boolean or a number
  cases a <;> cases ha <;> cases b <;> cases hb <;> rfl

end Value

/-! ## The rule that decides -/

namespace ArithmeticRule

variable {op : Operation} {a b : Value} {n m : Number}

/-- No rule for errors, null and strings applies to two numbers. -/
theorem first?_of_number? (ha : a.number? = some n) (hb : b.number? = some m) :
    first? op a b = [conversion, zeroDivisor, infiniteDivisor, number].find? (applies op a b) := by
  cases a <;> cases ha <;> cases b <;> cases hb <;> rfl

/-- Between numbers the conversion decides, or the converted divisor, or there is a result. -/
theorem exists_rule_of_number? (ha : a.number? = some n) (hb : b.number? = some m) :
    ∃ rule, first? op a b = some rule ∧ rule.Gives op a b (Value.arithmetic op a b) := by
  have htarget := Value.representation?_of_number? ha
  have hcases := Number.arithmetic_cases op n m
  rw [← Value.operand_of_number? ha hb] at hcases
  rw [first?_of_number? ha hb, Value.arithmetic_of_number? ha hb]
  cases hoperand : a.operand b with
  | error code =>
    simp only [hoperand] at hcases
    have hrefused : applies op a b conversion = true := by
      simp [applies, hoperand, Except.toOption]
    refine ⟨conversion, ?_, code, hoperand, by rw [hcases]; rfl⟩
    rw [List.find?_cons, hrefused]
  | ok d =>
    simp only [hoperand] at hcases
    generalize Number.arithmetic op n m = result at hcases ⊢
    have hconverted : applies op a b conversion = false := by
      simp [applies, hoperand, Except.toOption]
    have hzero : applies op a b zeroDivisor = (op.divides && d.isZero) := by
      simp [applies, hoperand, Except.toOption]
    have hinfinite : applies op a b infiniteDivisor
        = (op.divides && n.representation == .float && !d.isFinite) := by
      simp [applies, hoperand, htarget, Except.toOption]
    have hnumber : applies op a b number = true := rfl
    rw [List.find?_cons, hconverted, List.find?_cons, hzero, List.find?_cons, hinfinite,
      List.find?_cons, hnumber]
    cases hcases with
    | zero hdivides hzero => exact ⟨zeroDivisor, by rw [hdivides, hzero]; rfl, rfl⟩
    | infinite hdivides hzero hfloat hfinite =>
      exact ⟨infiniteDivisor, by rw [hdivides, hzero, hfloat, hfinite]; rfl, rfl⟩
    | number result hzero hfinite hresult =>
      refine ⟨number, ?_, result, rfl, by rw [htarget, hresult]⟩
      rw [hzero, Bool.and_right_comm, hfinite]
      rfl

/-- **There is always a rule** that applies, and the first one gives the result. -/
theorem exists_rule (op : Operation) (a b : Value) :
    ∃ rule, first? op a b = some rule ∧ rule.Gives op a b (Value.arithmetic op a b) := by
  cases a with
  | error code => exact ⟨leftError, rfl, rfl⟩
  | null =>
    cases b with
    | error code => exact ⟨rightError, rfl, rfl⟩
    | null | boolean | number | string => exact ⟨nullOperand, rfl, rfl⟩
  | boolean x =>
    cases b with
    | error code => exact ⟨rightError, rfl, rfl⟩
    | null => exact ⟨nullOperand, rfl, rfl⟩
    | string t => exact ⟨booleanWithString, rfl, rfl⟩
    | boolean y => exact exists_rule_of_number? rfl rfl
    | number m => exact exists_rule_of_number? rfl rfl
  | number n =>
    cases b with
    | error code => exact ⟨rightError, rfl, rfl⟩
    | null => exact ⟨nullOperand, rfl, rfl⟩
    | string t => exact ⟨oneString, rfl, rfl⟩
    | boolean y => exact exists_rule_of_number? rfl rfl
    | number m => exact exists_rule_of_number? rfl rfl
  | string s =>
    cases b with
    | error code => exact ⟨rightError, rfl, rfl⟩
    | null => exact ⟨nullOperand, rfl, rfl⟩
    | boolean y => exact ⟨booleanWithString, rfl, rfl⟩
    | number m => exact ⟨oneString, rfl, rfl⟩
    | string t =>
      refine ⟨twoStrings, rfl, ?_⟩
      by_cases hadd : op = .add
      · rw [Gives, if_pos hadd]
        exact ⟨s, t, rfl, rfl, if_pos hadd⟩
      · rw [Gives, if_neg hadd]
        exact if_neg hadd

/-- A rule that applies gives an error, unless strings are joined or there is a number. -/
theorem result_of_not_isError {rule : ArithmeticRule} {result : Value}
    (hfirst : first? op a b = some rule) (hgives : rule.Gives op a b result)
    (hresult : result.isError = false) :
    (∃ s t, op = .add ∧ a = .string s ∧ b = .string t ∧ result = .string (s ++ t)) ∨
      ∃ n, result = .number n ∧ a.representation? = some n.representation := by
  have happlies : applies op a b rule = true := List.find?_some hfirst
  cases rule with
  | leftError =>
    cases hgives
    exact absurd (happlies.symm.trans hresult) (by decide)
  | rightError =>
    cases hgives
    exact absurd (happlies.symm.trans hresult) (by decide)
  | nullOperand | booleanWithString | oneString | zeroDivisor | infiniteDivisor =>
    cases hgives
    cases hresult
  | conversion =>
    obtain ⟨code, -, rfl⟩ := hgives
    cases hresult
  | twoStrings =>
    by_cases hadd : op = .add
    · rw [Gives, if_pos hadd] at hgives
      obtain ⟨s, t, ha, hb, hjoined⟩ := hgives
      exact .inl ⟨s, t, hadd, ha, hb, hjoined⟩
    · rw [Gives, if_neg hadd] at hgives
      cases hgives
      cases hresult
  | number => exact .inr hgives

end ArithmeticRule

/-- **The first rule that applies** decides on every operation and every pair of values. So a result
that is no error is two strings joined or a number in the representation of the left operand, where
a boolean counts as an integer; and `notAnError` comes out only if it went in. -/
theorem Value.arithmetic_rule (op : Operation) (a b : Value) :
    (∃ rule, ArithmeticRule.first? op a b = some rule ∧ rule.Gives op a b (arithmetic op a b)) ∧
      ((arithmetic op a b).isError = false →
        (∃ s t, op = .add ∧ a = .string s ∧ b = .string t ∧
          arithmetic op a b = .string (s ++ t)) ∨
        ∃ n, arithmetic op a b = .number n ∧ a.representation? = some n.representation) ∧
      (arithmetic op a b = .error .notAnError →
        a = .error .notAnError ∨ b = .error .notAnError) := by
  obtain ⟨rule, hfirst, hgives⟩ := ArithmeticRule.exists_rule op a b
  exact ⟨⟨rule, hfirst, hgives⟩, ArithmeticRule.result_of_not_isError hfirst hgives,
    honest₂_arithmetic op a b⟩

/-- A half is a zero once it is converted for a boolean, which counts as an integer, and a float is
cut off when it is added. The code `notAnError` passes on. -/
theorem Value.arithmetic_rule_boolean :
    ArithmeticRule.first? .div (.boolean true) (.float 0.5) = some .zeroDivisor ∧
      arithmetic .div (.boolean true) (.float 0.5) = .error .divideByZero ∧
      (arithmetic .add (.boolean true) (.float 2.5)).isError = false ∧
      (∃ n, arithmetic .add (.boolean true) (.float 2.5) = .number n ∧
        some n.representation = some .integer) ∧
      arithmetic .mul .null (.error .notAnError) = .error .notAnError ∧
      (Value.null = .error .notAnError ∨ Value.error .notAnError = .error .notAnError) := by
  obtain ⟨⟨rule, hfirst, hgives⟩, -⟩ := arithmetic_rule .div (.boolean true) (.float 0.5)
  have hrule : ArithmeticRule.first? .div (.boolean true) (.float 0.5) = some .zeroDivisor := by
    decide
  cases hrule.symm.trans hfirst
  have hsum : (arithmetic .add (.boolean true) (.float 2.5)).isError = false := by decide
  obtain ⟨-, hkept, -⟩ := arithmetic_rule .add (.boolean true) (.float 2.5)
  obtain ⟨-, -, hcode⟩ := arithmetic_rule .mul .null (.error .notAnError)
  refine ⟨hrule, hgives, hsum, ?_, rfl, hcode rfl⟩
  rcases hkept hsum with ⟨s, t, -, ha, -⟩ | ⟨n, hn, htarget⟩
  · cases ha
  · exact ⟨n, hn, htarget.symm⟩

end ReversePolish
