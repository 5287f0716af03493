import ReversePolish.Variable.Registry
import ReversePolish.Value.Order
/-!
# The stack

A stack of stacks. Only the active segment is within reach of operators; the segments below it are
parked until the active one is closed, which puts its slots on top of those of the segment below,
followed by their count. Every list of slots has its top first.

A slot holds a value, or refers to a variable and shows what its cell holds. Moving and copying a
slot never turns a reference into a value.
-/

namespace ReversePolish

/-- An entry of the stack. -/
inductive Slot where
  | value (v : Value)
  | variable (v : Variable)
  deriving DecidableEq, Repr

namespace Slot

/-- The value seen through a slot (`Slot.value`). -/
def read (cells : Cells) : Slot → Value
  | .value v => v
  | .variable v => cells.read v.cell

/-- The variable that a slot refers to, if it does (`Slot.as_variable`). -/
def reference? : Slot → Option Variable
  | .value _ => none
  | .variable v => some v

/-- Whether two slots are equal: two values if they are equal as values, two references if they
share their cell, and a value and a reference never. -/
def equal : Slot → Slot → Bool
  | .value v, .value w => v.equal w
  | .variable v, .variable w => v.sharesCell w
  | _, _ => false

end Slot

/-- The active segment and the parked ones, the innermost first. -/
structure Stack where
  active : List Slot := []
  parked : List (List Slot) := []
  deriving DecidableEq, Repr

namespace Stack

def size (s : Stack) : Nat := s.active.length

/-- All slots, the bottom of the root segment first (`Stack.iter`). -/
def slots (s : Stack) : List Slot := (s.active :: s.parked).flatten.reverse

def depth (s : Stack) : Nat := s.slots.length

def segments (s : Stack) : Nat := s.parked.length + 1

def isEmpty (s : Stack) : Bool := s.slots.isEmpty

def push (s : Stack) (slot : Slot) : Stack := { s with active := slot :: s.active }

/-- Pushes several slots, which stand with their top first (`Stack.push_n`). -/
def pushMany (s : Stack) (slots : List Slot) : Stack := { s with active := slots ++ s.active }

/-- The top slot, and the stack without it (`Stack.pop_slot`). -/
def pop (s : Stack) : Except OperatorError (Slot × Stack) :=
  match s.active with
  | [] => .error .argumentCountMismatch
  | top :: rest => .ok (top, { s with active := rest })

/-- The `n` top slots, and the stack without them (`Stack.pop_n`). -/
def popMany (s : Stack) (n : Nat) : Except OperatorError (List Slot × Stack) :=
  if n > s.size then .error .argumentCountMismatch
  else .ok (s.active.take n, { s with active := s.active.drop n })

/-- The slot `n` places from the top, which is at place one (`Stack.at`). -/
def slotAt (s : Stack) (n : Nat) : Except OperatorError Slot :=
  match n with
  | 0 => .error .argumentCountMismatch
  | n + 1 =>
    match s.active[n]? with
    | some slot => .ok slot
    | none => .error .argumentCountMismatch

def clear (_ : Stack) : Stack := {}

/-! ## Segments -/

/-- Parks the active segment and starts an empty one (`Stack.open`). -/
def openSegment (s : Stack) : Stack := ⟨[], s.active :: s.parked⟩

/-- Puts the active segment on top of the one below it, followed by its size (`Stack.close`). -/
def closeSegment (s : Stack) : Except ProcessingError Stack :=
  match s.parked with
  | [] => .error .noMoreStacks
  | parent :: parked =>
    .ok ⟨.value (.unsigned (UInt64.ofNat s.size)) :: s.active ++ parent, parked⟩

/-! ## Shuffles -/

/-- Rearranges the `n` top slots, which `f` sees with their top first. -/
def rearrange (s : Stack) (n : Nat) (f : List Slot → List Slot) : Except OperatorError Stack :=
  (s.popMany n).map fun (top, rest) => rest.pushMany (f top)

/-- Moves each of the `n` top slots `amount` places up among them, the topmost coming in again
from below (`Stack.rotate`, which counts from the bottom and so turns its slice right). -/
def rotate (s : Stack) (n amount : Nat) : Except OperatorError Stack :=
  s.rearrange n (·.rotateLeft amount)

/-- Moves each of the `n` top slots `amount` places down among them (`Stack.rotate_down`). -/
def rotateDown (s : Stack) (n amount : Nat) : Except OperatorError Stack :=
  s.rearrange n (·.rotateRight amount)

def reverse (s : Stack) (n : Nat) : Except OperatorError Stack := s.rearrange n List.reverse

/-- The top slot goes below the `n - 1` others: `a b c` becomes `c a b` for three. -/
def roll (s : Stack) (n : Nat) : Except OperatorError Stack := s.rotate n 1

/-- The lowest of the `n` top slots comes to the top: `a b c` becomes `b c a` for three
(`Stack.rolld`). -/
def rollDown (s : Stack) (n : Nat) : Except OperatorError Stack := s.rotateDown n 1

def rot (s : Stack) : Except OperatorError Stack := s.rollDown 3

def unrot (s : Stack) : Except OperatorError Stack := s.roll 3

def swap (s : Stack) : Except OperatorError Stack := s.roll 2

/-- Copies the slot `n` places from the top, a reference as a reference. -/
def pick (s : Stack) (n : Nat) : Except OperatorError Stack := (s.slotAt n).map s.push

def dup (s : Stack) : Except OperatorError Stack := s.pick 1

/-- Copies the slot below the top (`Stack.over`). -/
def copyOver (s : Stack) : Except OperatorError Stack := s.pick 2

def dup2 (s : Stack) : Except OperatorError Stack := (s.pick 2).bind (·.pick 2)

def drop (s : Stack) : Except OperatorError Stack := s.pop.map Prod.snd

end Stack

end ReversePolish
