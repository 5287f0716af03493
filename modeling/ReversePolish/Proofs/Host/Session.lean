import ReversePolish.Calculator
/-!
# Sessions

What a host does with a calculator it has set up: it evaluates texts, puts values on the stack and
takes them off, gives variables values and forgets them, and clears everything, in any order and as
often as it likes. A session keeps account of the names that were forgotten on the way, because
slots may go on referring to a variable that the registry no longer knows.
-/

namespace ReversePolish

/-- A call of the host. -/
inductive HostCall where
  | evaluate (text : String) (mustExist : Bool)
  | push (v : Value)
  | pop
  | define (name : String) (v : Value)
  | forget (name : String)
  | clear
  deriving DecidableEq, Repr

namespace Calculator

/-- The calculator after a call. It stays as it is when there is nothing to pop or to forget. -/
def after (c : Calculator) : HostCall → Calculator
  | .evaluate text mustExist => (c.evaluate text mustExist).2
  | .push v => c.push v
  | .pop => c.pop.2
  | .define name v => c.define name v
  | .forget name => (c.forget name).toOption.getD c
  | .clear => c.clear

/-- The forgotten names after a call. -/
def forgottenAfter (c : Calculator) (forgotten : List String) : HostCall → List String
  | .forget name => if (c.forget name).toOption.isSome then name :: forgotten else forgotten
  | .clear => []
  | _ => forgotten

/-- No call touches the operators or the configuration. -/
theorem table_after (c : Calculator) (call : HostCall) :
    (c.after call).table = c.table ∧ (c.after call).config = c.config := by
  cases call with
  | evaluate | push | define | clear => exact ⟨rfl, rfl⟩
  | pop =>
    simp only [after, pop]
    split <;> exact ⟨rfl, rfl⟩
  | forget name =>
    simp only [after, forget]
    cases c.machine.forget name <;> exact ⟨rfl, rfl⟩

end Calculator

/-- A calculator, and the names that were forgotten since it was last cleared. -/
structure Session where
  calculator : Calculator
  forgotten : List String := []

namespace Session

/-- The session after a call. -/
def call (s : Session) (h : HostCall) : Session :=
  ⟨s.calculator.after h, s.calculator.forgottenAfter s.forgotten h⟩

/-- The session after calls, one after the other. -/
def run (s : Session) (calls : List HostCall) : Session := calls.foldl call s

/-- **What holds at the start and is kept by every call** holds all the time. -/
theorem run_induction {P : Session → Prop} (hstep : ∀ s h, P s → P (s.call h)) {s : Session}
    (hs : P s) (calls : List HostCall) : P (s.run calls) := by
  induction calls generalizing s with
  | nil => exact hs
  | cons h calls ih => exact ih (hstep s h hs)

end Session

end ReversePolish
