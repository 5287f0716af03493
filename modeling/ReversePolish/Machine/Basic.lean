import ReversePolish.Stack
/-!
# The machine

What an operator may touch: the stack, the registry of variables and the cells behind both. Beside
them stand the handles that the host keeps, variables under names of the host's own, because a
handle keeps a cell in use.

A cell is held once by its registry entry, once by every slot that refers to it in any segment, and
once by every handle. A variable of the registry that holds null and that nobody but the registry
holds is loose.
-/

namespace ReversePolish

/-- The state of an evaluation (`State`). -/
structure Machine where
  stack : Stack := {}
  registry : Registry := {}
  cells : Cells := {}
  /-- The variables that the host keeps, by the names it keeps them under. -/
  handles : List (String × Variable) := []
  deriving DecidableEq, Repr

namespace Machine

/-- The value seen through a slot (`Slot.value`). -/
def see (s : Machine) (slot : Slot) : Value := slot.read s.cells

/-! ## The stack -/

def pushSlot (s : Machine) (slot : Slot) : Machine := { s with stack := s.stack.push slot }

def push (s : Machine) (v : Value) : Machine := s.pushSlot (.value v)

def pushReference (s : Machine) (v : Variable) : Machine := s.pushSlot (.variable v)

def popSlot (s : Machine) : Except OperatorError (Slot × Machine) :=
  s.stack.pop.map fun (slot, stack) => (slot, { s with stack })

/-- The value seen through the top slot, and the state without that slot (`Stack.pop`). -/
def pop (s : Machine) : Except OperatorError (Value × Machine) :=
  s.popSlot.map fun (slot, rest) => (s.see slot, rest)

def popMany (s : Machine) (n : Nat) : Except OperatorError (List Slot × Machine) :=
  (s.stack.popMany n).map fun (slots, stack) => (slots, { s with stack })

def peek (s : Machine) (n : Nat) : Except OperatorError Value := (s.stack.slotAt n).map s.see

/-- The values seen through all slots, the bottom of the root segment first
(`Context.stack_values`). -/
def stackValues (s : Machine) : List Value := s.stack.slots.map s.see

/-! ## Variables -/

/-- What the variable of a name holds (`Variables.get`). -/
def value? (s : Machine) (name : String) : Option Value :=
  (s.registry.lookup? name).map fun v => s.cells.read v.cell

/-- The names of the registry with what their variables hold, in the order of the names
(`Context.variables`). -/
def bindings (s : Machine) : List (String × Value) :=
  s.registry.entries.map fun v => (v.name, s.cells.read v.cell)

/-- Writes to the cell of a variable (`Variable.set`). -/
def write (s : Machine) (v : Variable) (value : Value) : Machine :=
  { s with cells := s.cells.write v.cell value }

/-- Adds a variable with a new cell to the registry (`Variable.new`, entered under its name). -/
def create (s : Machine) (name : String) (value : Value) : Machine :=
  { s with
    registry := s.registry.insert name ⟨name, s.cells.next⟩
    cells := s.cells.alloc value }

/-- Gives the variable of a name a value (`Variables.set`). A known variable is written to in place,
so that all who share its cell see the change. -/
def set (s : Machine) (name : String) (value : Value) : Machine :=
  match s.registry.lookup? name with
  | some v => s.write v value
  | none => s.create name value

/-- The variable of a name, which is created with null if the name is not known
(`Variables.vivify`). -/
def obtain (s : Machine) (name : String) : Variable × Machine :=
  match s.registry.lookup? name with
  | some v => (v, s)
  | none => (⟨name, s.cells.next⟩, s.create name .null)

/-- Forgets the variable of a name and hands it out (`Variables.purge`). Slots that refer to it keep
its cell. -/
def forget (s : Machine) (name : String) : Except ProcessingError (Variable × Machine) :=
  match s.registry.lookup? name with
  | some v => .ok (v, { s with registry := s.registry.erase name })
  | none => .error .variableDoesNotExist

/-- Forgets all variables (`Variables.clear`). -/
def clearVariables (s : Machine) : Machine := { s with registry := {} }

/-- Pushes a reference to the variable of a name (`State.push_variable`). One that is not known is
created if `create` is set, and is a failure otherwise. -/
def refer (s : Machine) (name : String) (create : Bool) : Except ProcessingError Machine :=
  if create then
    let (v, s) := s.obtain name
    .ok (s.pushReference v)
  else
    match s.registry.lookup? name with
    | some v => .ok (s.pushReference v)
    | none => .error .variableDoesNotExist

/-! ## Holders -/

/-- The variables that slots of any segment refer to, with repetitions. -/
def references (s : Machine) : List Variable := s.stack.slots.filterMap Slot.reference?

/-- The number of holders of a cell (`Variable.holders`). -/
def holderCount (s : Machine) (c : CellId) : Nat :=
  (s.registry.entries ++ s.references ++ s.handles.map Prod.snd).countP fun v => v.cell == c

/-- Whether a variable of the registry holds null and has no holder besides the registry. -/
def isLoose (s : Machine) (v : Variable) : Bool :=
  (s.cells.read v.cell).isNull && s.holderCount v.cell == 1

/-- Forgets the loose variables; nothing else changes (`Variables.prune`). -/
def dropLoose (s : Machine) : Machine :=
  { s with registry := s.registry.filter fun v => !s.isLoose v }

/-- The number of loose variables, which `Variables.prune` returns. -/
def looseCount (s : Machine) : Nat := s.registry.entries.countP s.isLoose

/-- The cells that slots and the registry refer to, each once, in the order in which they appear
from the bottom of the root segment to the end of the registry. -/
def liveCells (s : Machine) : List CellId :=
  ((s.references ++ s.registry.entries).map Variable.cell).eraseDups

/-! ## Handles -/

/-- What can be seen of a variable through a handle: its name, the number of holders of its cell,
and what the cell holds. -/
structure HandleView where
  name : String
  holders : Nat
  value : Value
  deriving DecidableEq, Repr

/-- The variable that the host keeps under the name `handle`. -/
def handle? (s : Machine) (handle : String) : Option Variable := s.handles.lookup handle

/-- Keeps a variable under the name `handle`, in place of one kept there before. -/
def keep (s : Machine) (handle : String) (v : Variable) : Machine :=
  { s with handles := (handle, v) :: s.handles.filter fun kept => !(kept.1 == handle) }

/-- Keeps the variable of a name under the name `handle`, if there is such a variable. -/
def hold? (s : Machine) (handle name : String) : Option Machine :=
  (s.registry.lookup? name).map (s.keep handle)

/-- Keeps a variable with a new cell that the registry does not know. -/
def keepNew (s : Machine) (handle name : String) (value : Value) : Machine :=
  { s with cells := s.cells.alloc value }.keep handle ⟨name, s.cells.next⟩

def release (s : Machine) (handle : String) : Machine :=
  { s with handles := s.handles.filter fun kept => !(kept.1 == handle) }

def viewKept (s : Machine) (v : Variable) : HandleView :=
  ⟨v.name, s.holderCount v.cell, s.cells.read v.cell⟩

/-- What is seen through a handle that is in hand but not kept: it is one more holder. -/
def viewInHand (s : Machine) (v : Variable) : HandleView :=
  ⟨v.name, s.holderCount v.cell + 1, s.cells.read v.cell⟩

end Machine

end ReversePolish
