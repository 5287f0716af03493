import ReversePolish.Machine.Basic
/-!
# Effects

What the body of an operator does: it changes the state and may fail on the way. A failure does not
undo what was done before it, so its outcome, too, is a state.

Every elementary effect either does one thing or fails and leaves the state as it is. What it does
is said once, by its equation for `run`; the equations for sequences are those of the monad.
-/

namespace ReversePolish

/-- A change of the state that may fail. -/
abbrev Effect (α : Type) := EStateM Failure Machine α

namespace Effect

variable {α : Type}

/-- Fails, or yields a result and leaves the state as it is. -/
def ofExcept {ε : Type} (tag : ε → Failure) (r : Except ε α) : Effect α := fun s =>
  match r with
  | .ok a => .ok a s
  | .error code => .error (tag code) s

/-- Fails and leaves the state as it is, or yields a result and a new state. -/
def ofStep {ε : Type} (tag : ε → Failure) (step : Machine → Except ε (α × Machine)) : Effect α :=
  fun s =>
    match step s with
    | .ok (a, s) => .ok a s
    | .error code => .error (tag code) s

def onStack (f : Stack → Except OperatorError Stack) : Effect Unit :=
  ofStep .operator fun s => (f s.stack).map fun stack => ((), { s with stack })

def pop : Effect Value := ofStep .operator Machine.pop

def popSlot : Effect Slot := ofStep .operator Machine.popSlot

def popMany (n : Nat) : Effect (List Slot) := ofStep .operator fun s => s.popMany n

def push (v : Value) : Effect Unit := modify (·.push v)

def pushSlot (slot : Slot) : Effect Unit := modify (·.pushSlot slot)

def slotAt (n : Nat) : Effect Slot := do ofExcept .operator ((← get).stack.slotAt n)

def peek (n : Nat) : Effect Value := do ofExcept .operator ((← get).peek n)

def size : Effect Nat := return (← get).stack.size

/-- Pushes a reference to the variable of a name, see `Machine.refer`. -/
def refer (name : String) (create : Bool) : Effect Unit :=
  ofStep .processing fun s => (s.refer name create).map fun s => ((), s)

def openSegment : Effect Unit := modify fun s => { s with stack := s.stack.openSegment }

def closeSegment : Effect Unit :=
  ofStep .processing fun s => s.stack.closeSegment.map fun stack => ((), { s with stack })

/-! ## Equations -/

@[simp] theorem run_fail (failure : Failure) (s : Machine) :
    (throw failure : Effect α).run s = .error failure s := rfl

@[simp] theorem run_ofExcept_ok {ε : Type} (tag : ε → Failure) (a : α) (s : Machine) :
    (ofExcept tag (.ok a)).run s = .ok a s := rfl

@[simp] theorem run_ofExcept_error {ε : Type} (tag : ε → Failure) (code : ε) (s : Machine) :
    (ofExcept tag (.error code) : Effect α).run s = .error (tag code) s := rfl

theorem run_ofStep {ε : Type} (tag : ε → Failure) (step : Machine → Except ε (α × Machine))
    (s : Machine) : (ofStep tag step).run s =
      match step s with
      | .ok (a, s) => .ok a s
      | .error code => .error (tag code) s := rfl

@[simp] theorem run_size (s : Machine) : size.run s = .ok s.stack.size s := rfl

@[simp] theorem run_push (v : Value) (s : Machine) : (push v).run s = .ok () (s.push v) := rfl

@[simp] theorem run_pushSlot (slot : Slot) (s : Machine) :
    (pushSlot slot).run s = .ok () (s.pushSlot slot) := rfl

@[simp] theorem run_openSegment (s : Machine) :
    openSegment.run s = .ok () { s with stack := s.stack.openSegment } := rfl

end Effect

end ReversePolish
