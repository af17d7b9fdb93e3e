import Chip8.Machine.Cycle

/-! # Runs of cycles

A run repeats cycles until it has done as many as asked for or one of them fails. It remembers the
signals and the events on its way.
-/

namespace Chip8

/-- How far a run has come. -/
structure Run where
  machine : Machine
  /-- The signals of the cycles that succeeded, the latest first. -/
  signals : List Signal
  /-- What ended the run early. -/
  fault : Option Fault
  /-- The events so far, the latest first. -/
  journal : List Event

namespace Run

/-- A run that has not begun. -/
def start (machine : Machine) : Run := ⟨machine, [], none, []⟩

/-- The run after one more cycle. -/
def advance (run : Run) : Run :=
  let outcome := run.machine.cycle
  let journal := outcome.events.reverse ++ run.journal
  match outcome.result with
  | .ok signal => { run with
      machine := outcome.machine, signals := signal :: run.signals, journal := journal }
  | .error fault => { run with
      machine := outcome.machine, fault := some fault, journal := journal }

/-- Up to `count` more cycles, none after a fault. -/
def proceed : (count : Nat) → Run → Run
  | 0, run => run
  | count + 1, run =>
    match run.fault with
    | some _ => run
    | none => proceed count run.advance

/-- The number of cycles that succeeded. -/
def completed (run : Run) : Nat := run.signals.length

/-- The events in the order in which they were logged. -/
def events (run : Run) : List Event := run.journal.reverse

/-- The signal of the last cycle; a run without cycles is quiet. -/
def lastSignal (run : Run) : Signal := run.signals.headD .quiet

/-- The fault of a run that failed, or else its last signal. -/
def result (run : Run) : Except Fault Signal :=
  match run.fault with
  | some fault => .error fault
  | none => .ok run.lastSignal

end Run

/-- Runs up to `count` cycles. -/
def Machine.run (machine : Machine) (count : Nat) : Run := (Run.start machine).proceed count

end Chip8
