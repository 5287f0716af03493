import ReversePolish.Operator.Builtin
/-!
# Operands and what is left of them

What a standard operator does to the stack is settled by its name: how many slots it takes off the
active segment, and what it leaves in their place. Most operators leave one new value. The others
leave slots that were among the operands, as they are, so that a reference stays a reference: the
shuffles leave operands at fixed places, and the selectors one that the values of the operands
decide on.

How many slots are taken is the arity, but for `index`, whose top operand says how many slots lie
below it.
-/

namespace ReversePolish

/-! ## What an operator leaves -/

/-- What an operator leaves in the place of its operands. -/
inductive Remainder where
  /-- A new value. -/
  | value
  /-- The operands at these places, in this order, the topmost being the zeroth. -/
  | operands (places : List Nat)
  /-- One of the operands. -/
  | choice
  deriving DecidableEq, Repr

namespace Remainder

/-- What the standard operator of a name leaves. -/
def ofName : String → Remainder
  | "dup" => .operands [0, 0]
  | "dup2" => .operands [0, 1, 0, 1]
  | "over" => .operands [1, 0, 1]
  | "swap" => .operands [1, 0]
  | "rot" => .operands [2, 0, 1]
  | "unrot" => .operands [1, 2, 0]
  | "exists" => .operands [0]
  | "drop" | "=" | "end" => .operands []
  | "index" | "constrain" | "ifn" => .choice
  | _ => .value

/-- The number of slots that are left. -/
def size : Remainder → Nat
  | value | choice => 1
  | operands places => places.length

/-- Whether `left` is what is left of the operands `group`. -/
def IsLeft : Remainder → List Slot → List Slot → Prop
  | value, _, left => ∃ v, left = [.value v]
  | operands places, group, left => left.map some = places.map (group[·]?)
  | choice, group, left => ∃ slot ∈ group, left = [slot]

variable {r : Remainder} {group left : List Slot}

theorem IsLeft.length_eq (h : r.IsLeft group left) : left.length = r.size := by
  cases r with
  | value =>
    obtain ⟨v, rfl⟩ := h
    rfl
  | operands places => simpa [size] using congrArg List.length h
  | choice =>
    obtain ⟨slot, -, rfl⟩ := h
    rfl

/-- What is no new value was among the operands. -/
theorem IsLeft.mem (h : r.IsLeft group left) (hr : r ≠ .value) {slot : Slot}
    (hslot : slot ∈ left) : slot ∈ group := by
  cases r with
  | value => exact absurd rfl hr
  | operands places =>
    have hplaces : left.map some = places.map (group[·]?) := h
    have hsome : some slot ∈ places.map (group[·]?) := hplaces ▸ List.mem_map_of_mem hslot
    obtain ⟨i, -, hi⟩ := List.mem_map.1 hsome
    exact List.mem_of_getElem? hi
  | choice =>
    obtain ⟨other, hother, rfl⟩ := h
    rwa [List.mem_singleton.1 hslot]

end Remainder

/-! ## What an operator takes -/

namespace Operator

/-- The number of slots that an operator takes: as many as its arity says, but `index` takes the
group that its top operand announces along with its two operands. An operand that announces no group
is refused. -/
def operandCount? (op : Operator) (s : Machine) : Option Nat :=
  if op.name = "index" then ((s.peek 1).bind Builtin.groupSize).toOption.map (· + 2)
  else some op.arity

theorem operandCount?_of_ne {op : Operator} (h : op.name ≠ "index") (s : Machine) :
    op.operandCount? s = some op.arity :=
  if_neg h

/-- An operator that does not choose takes as many slots as its arity says. -/
theorem operandCount?_of_remainder {op : Operator} (h : Remainder.ofName op.name ≠ .choice)
    (s : Machine) : op.operandCount? s = some op.arity :=
  operandCount?_of_ne (fun hname => h (by rw [hname]; rfl)) s

theorem operandCount?_index {op : Operator} (h : op.name = "index") {s : Machine} {n : Nat}
    (hn : (s.peek 1).bind Builtin.groupSize = .ok n) : op.operandCount? s = some (n + 2) := by
  rw [operandCount?, if_pos h, hn]
  rfl

end Operator

end ReversePolish
