import ReversePolish.Operator.Basic
import ReversePolish.Value.Arithmetic
/-!
# The built-in operators

Most of them take values off the stack and push one. The others look at what they were given
before they touch the stack, so that a failure leaves it as it was; only `end` takes its operand
first.
-/

namespace ReversePolish.Builtin

/-- The whole number that an argument must be (`operators.integral`). -/
def wholeArgument (v : Value) : Except OperatorError Int64 :=
  match v.number? with
  | some n =>
    if n.isWhole then
      match n.checkedInt with
      | .ok i => .ok i
      | .error _ => .error .invalidArgument
    else .error .invalidArgument
  | none => .error .invalidArgument

/-- A value cut off after the point and made an integer; an error stays what it is (the operator
`int`). -/
def toInteger : Value → Value
  | .error code => .error code
  | v => Value.ofExcept .integer v.checkedInt

/-! ## Numbers -/

/-- The count of decimal places that an argument asks for, which must be a 32-bit word. An error
hands back the code that it carries. -/
def decimalPlaces : Value → Except Failure Int
  | .error code => .error (.value code)
  | v =>
    match wholeArgument v with
    | .ok i =>
      if Int32.minValue.toInt ≤ i.toInt ∧ i.toInt ≤ Int32.maxValue.toInt then .ok i.toInt
      else .error (.operator .invalidArgument)
    | .error code => .error (.operator code)

/-- `v digits -> v`, rounded to so many decimal places (`operators.round`). Integers pass
through. -/
def round : Effect Unit := do
  let digits ← Effect.ofExcept id (decimalPlaces (← Effect.peek 1))
  let _ ← Effect.popSlot
  let v ← Effect.pop
  Effect.push (v.mapFloat (Binary64.roundPlaces · digits))

/-- The point of the range from `toLow` to `toHigh` that lies where `v` does in the range from
`fromLow` to `fromHigh`. Outside of the range `v` counts as the bound that it is nearer to; either
range may run backwards. -/
def rescale (v fromLow fromHigh toLow toHigh : Float) : Float :=
  let v := Binary64.maximum v (Binary64.minimum fromLow fromHigh)
  let v := Binary64.minimum v (Binary64.maximum fromLow fromHigh)
  toLow + (v - fromLow) * (toHigh - toLow) / (fromHigh - fromLow)

def floatAt (n : Nat) : Effect Float := do
  Effect.ofExcept .value (← Effect.peek n).requireFloat

/-- `v fromLow fromHigh toLow toHigh -> v`, rescaled (`operators.map`). The range to scale from must
not be empty. -/
def map : Effect Unit := do
  let v ← floatAt 5
  let fromLow ← floatAt 4
  let fromHigh ← floatAt 3
  let toLow ← floatAt 2
  let toHigh ← floatAt 1
  if Binary64.nearlyEqual fromLow fromHigh then throw (.operator .invalidArgument)
  let _ ← Effect.popMany 5
  Effect.push (.float (rescale v fromLow fromHigh toLow toHigh))

/-- `v lower upper -> v`, where the value lies in the range (`operators.cmp3`). -/
def cmp3 : Effect Unit := do
  let upper ← Effect.pop
  let lower ← Effect.pop
  let v ← Effect.pop
  Effect.push (v.position lower upper)

/-! ## Slots -/

def depth : Effect Unit := do Effect.push (.unsigned (UInt64.ofNat (← Effect.size)))

/-- The size of the group that an argument announces. -/
def groupSize (count : Value) : Except OperatorError Nat :=
  match wholeArgument count with
  | .ok n => if n.toInt < 0 then .error .invalidArgument else .ok n.toInt.toNat
  | .error code => .error code

/-- The member of a group of `n` that an argument addresses, the lowest being the zeroth; a
negative argument counts from the end. -/
def memberOf (n : Nat) (position : Value) : Except OperatorError Nat :=
  match wholeArgument position with
  | .ok i =>
    let k := if i.toInt < 0 then i.toInt + n else i.toInt
    if k < 0 ∨ (n : Int) ≤ k then .error .invalidArgument else .ok k.toNat
  | .error code => .error code

/-- `i x₀ … xₙ₋₁ n -> xᵢ`, the slot itself (`operators.index`). -/
def index : Effect Unit := do
  let n ← Effect.ofExcept .operator (groupSize (← Effect.peek 1))
  if (← Effect.size) < n + 2 then throw (.operator .invalidArgument)
  let k ← Effect.ofExcept .operator (memberOf n (← Effect.peek (n + 2)))
  let chosen ← Effect.slotAt (n + 1 - k)
  let _ ← Effect.popMany (n + 2)
  Effect.pushSlot chosen

/-- `v lower upper -> v`, clamped: whichever of the three slots it is stays as it is
(`operators.constrain`). -/
def constrain : Effect Unit := do
  let upper ← Effect.popSlot
  let lower ← Effect.popSlot
  let v ← Effect.popSlot
  let s ← get
  Effect.pushSlot <|
    if (s.see v).lt (s.see lower) then lower
    else if (s.see v).gt (s.see upper) then upper
    else v

/-- `condition then else -> then` or `else` (`operators.ifn`). -/
def ifn : Effect Unit := do
  let otherwise ← Effect.popSlot
  let chosen ← Effect.popSlot
  let condition ← Effect.pop
  Effect.pushSlot (if condition.toBoolean then chosen else otherwise)

/-! ## Variables -/

/-- Stops unless the top slot refers to a variable that is not null (`operators.exists`). The slot
stays. -/
def requireBound : Effect Unit := do
  match ← Effect.slotAt 1 with
  | .variable v =>
    if ((← get).cells.read v.cell).isNull then throw (.operator .cannotContinue)
  | .value _ => throw (.operator .invalidType)

/-- `v reference ->`, writes the value to the cell behind the reference (`operators.assign`). -/
def assign : Effect Unit := do
  match ← Effect.slotAt 1 with
  | .variable target =>
    let _ ← Effect.popSlot
    let v ← Effect.pop
    modify (·.write target v)
  | .value _ => throw (.operator .invalidType)

/-- `v ->`, stops unless the value counts as true (`operators.end`). -/
def stopUnless : Effect Unit := do
  unless (← Effect.pop).toBoolean do throw (.operator .cannotContinue)

/-! ## The table -/

/-- The ratio of a circle's circumference to its diameter. -/
def pi : Float := .ofBits 0x400921FB54442D18

/-- The base of the natural logarithm. -/
def e : Float := .ofBits 0x4005BF0A8B145769

/-- The standard operators in the order of their registration (`operators.install_builtins`). -/
def operators : List Operator :=
  [.binary "+" (.arithmetic .add),
   .binary "-" (.arithmetic .sub),
   .binary "*" (.arithmetic .mul),
   .binary "/" (.arithmetic .div),
   .binary "mod" (.arithmetic .mod),
   .unary "abs" .abs,
   ⟨"round", 2, round⟩,
   .unary "ceil" (.mapFloat Float.ceil),
   .unary "floor" (.mapFloat Float.floor),
   .unary "int" toInteger,
   .binary "eq" fun a b => .boolean (a.equal b),
   .binary "ne" fun a b => .boolean (!a.equal b),
   .binary "gt" fun a b => .boolean (a.gt b),
   .binary "ge" fun a b => .boolean (a.ge b),
   .binary "lt" fun a b => .boolean (a.lt b),
   .binary "le" fun a b => .boolean (a.le b),
   .binary "cmp" .comparison,
   ⟨"cmp3", 3, cmp3⟩,
   .binary "and" fun a b => .boolean (a.toBoolean && b.toBoolean),
   .binary "or" fun a b => .boolean (a.toBoolean || b.toBoolean),
   .binary "xor" fun a b => .boolean (a.toBoolean ^^ b.toBoolean),
   .unary "not" fun a => .boolean (!a.toBoolean),
   .shuffle "dup" 1 Stack.dup,
   .shuffle "dup2" 2 Stack.dup2,
   .shuffle "over" 2 Stack.copyOver,
   .shuffle "swap" 2 Stack.swap,
   .shuffle "rot" 3 Stack.rot,
   .shuffle "unrot" 3 Stack.unrot,
   .shuffle "drop" 1 Stack.drop,
   ⟨"depth", 0, depth⟩,
   .constant "pi" (.float pi),
   .constant "e" (.float e),
   ⟨"index", 2, index⟩,
   ⟨"map", 5, map⟩,
   ⟨"constrain", 3, constrain⟩,
   ⟨"exists", 1, requireBound⟩,
   ⟨"=", 2, assign⟩,
   ⟨"ifn", 3, ifn⟩,
   ⟨"end", 1, stopUnless⟩]

end ReversePolish.Builtin
