import ReversePolish.Evaluation
import ReversePolish.Operator.Builtin
import ReversePolish.Operator.Elementary
/-!
# The calculator

What a host has in hand: a machine, a table of operators, the configuration that both were set up
with, and the failure of the last text that was evaluated. The variables that a text leaves loose
are dropped at its end, whatever came of it.

Here and in the modules below, a name in parentheses is the one that a definition goes by in the
evaluator.
-/

namespace ReversePolish

/-- The choices made when a calculator is set up. -/
structure Config where
  /-- The longest text that is evaluated, in bytes. -/
  capacity : Nat := 256
  /-- Whether the built-in operators are registered. -/
  builtins : Bool := true
  /-- Whether the operators for elementary functions are registered. -/
  elementary : Bool := true
  deriving DecidableEq, Repr

/-- No operators at all; the host registers its own. -/
def Config.bare : Config := { builtins := false, elementary := false }

/-- An evaluator and all that it remembers (`Context`). -/
structure Calculator where
  machine : Machine := {}
  table : OperatorTable := {}
  config : Config := {}
  /-- The failure of the last text, if it failed. -/
  failure : Option Diagnostic := none

namespace Calculator

/-- The operators that are registered from the start. -/
def operatorsOf (config : Config) (lib : ElementaryFunctions) : List Operator :=
  (if config.builtins then Builtin.operators else [])
    ++ (if config.elementary then lib.operators else [])

/-- A calculator that has not been used yet (`Context.new`). -/
def new (config : Config) (lib : ElementaryFunctions := .standard) : Calculator :=
  { table := ⟨operatorsOf config lib⟩, config }

/-- Evaluates a text and drops the variables that are loose at its end (`Context.process`). Under
`mustExist` no reference of the text creates a variable. -/
def evaluate (c : Calculator) (text : String) (mustExist : Bool) : Run × Calculator :=
  let run := runText c.table c.config.capacity mustExist text c.machine
  let run := { run with machine := run.machine.dropLoose }
  (run, { c with machine := run.machine, failure := run.failure })

/-- Empties the stack and the registry (`Context.clear`). The operators stay. -/
def clear (c : Calculator) : Calculator :=
  { c with
    machine := { c.machine with stack := c.machine.stack.clear, registry := {} }
    failure := none }

def register (c : Calculator) (op : Operator) : Calculator :=
  { c with table := c.table.register op }

/-- Applies the operator of a name, if there is one, and tells whether it failed (`Operators.find`
and `Operator.dispatch`, as a host calls them). An error value that it leaves is no failure here. -/
def applyNamed (c : Calculator) (name : String) : Option (Option Failure × Calculator) :=
  (c.table.find? name).map fun op =>
    match op.apply.run c.machine with
    | .ok _ machine => (none, { c with machine })
    | .error failure machine => (some failure, { c with machine })

def push (c : Calculator) (v : Value) : Calculator := { c with machine := c.machine.push v }

/-- The value seen through the top slot, if there is one, which is removed (`Context.pop`). -/
def pop (c : Calculator) : Option Value × Calculator :=
  match c.machine.pop with
  | .ok (v, machine) => (some v, { c with machine })
  | .error _ => (none, c)

def peek (c : Calculator) (n : Nat) : Option Value := (c.machine.peek n).toOption

/-- Gives the variable of a name a value (`Context.set_variable`). -/
def define (c : Calculator) (name : String) (v : Value) : Calculator :=
  { c with machine := c.machine.set name v }

/-- Forgets the variable of a name (`Context.delete_variable`). That there is none is a failure that
belongs to no text. -/
def forget (c : Calculator) (name : String) : Except Diagnostic Calculator :=
  match c.machine.forget name with
  | .ok (_, machine) => .ok { c with machine }
  | .error code => .error (.unplaced (.processing code))

end Calculator

end ReversePolish
