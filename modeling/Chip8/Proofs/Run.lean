import Chip8.Machine.Frame
import Chip8.Proofs.Session

/-! # Runs as repeated cycles

A run that meets no fault is the session that repeats its cycles, and its signals are theirs.
`Machine.run_succ` takes the last cycle off a run, which is how facts about whole runs are proved.
`Machine.after_preserves` is the other way to them: what single cycles and the actions between them
preserve is preserved by runs, frames and sessions, also by those that fail.
-/

namespace Chip8

namespace Run

private theorem proceed_of_fault {run : Run} {fault : Fault} (failed : run.fault = some fault)
    (count : Nat) : run.proceed count = run := by
  cases count with
  | zero => rfl
  | succ count => simp only [proceed, failed]

private theorem proceed_add (run : Run) (first second : Nat) :
    run.proceed (first + second) = (run.proceed first).proceed second := by
  induction first generalizing run with
  | zero => rw [Nat.zero_add, proceed]
  | succ first ih =>
    rw [Nat.add_right_comm, proceed, proceed]
    cases failed : run.fault with
    | none => exact ih run.advance
    | some fault => exact (proceed_of_fault failed second).symm

theorem advance_of_ok {run : Run} {signal : Signal}
    (ended : run.machine.cycle.result = .ok signal) :
    run.advance = { run with
      machine := run.machine.cycle.machine
      signals := signal :: run.signals
      journal := run.machine.cycle.events.reverse ++ run.journal } := by
  simp only [advance, ended]

theorem advance_of_error {run : Run} {fault : Fault}
    (ended : run.machine.cycle.result = .error fault) :
    run.advance = { run with
      machine := run.machine.cycle.machine
      fault := some fault
      journal := run.machine.cycle.events.reverse ++ run.journal } := by
  simp only [advance, ended]

theorem machine_advance (run : Run) : run.advance.machine = run.machine.cycle.machine := by
  cases ended : run.machine.cycle.result with
  | ok signal => rw [advance_of_ok ended]
  | error fault => rw [advance_of_error ended]

/-- The machines that up to `count` more cycles of a run start from. -/
def visits : (count : Nat) → Run → List Machine
  | 0, _ => []
  | count + 1, run =>
    match run.fault with
    | some _ => []
    | none => run.machine :: visits count run.advance

end Run

namespace Machine

variable {machine : Machine} {count : Nat}

private theorem run_add (machine : Machine) (first second : Nat) :
    machine.run (first + second) = (machine.run first).proceed second :=
  (Run.start machine).proceed_add first second

/-- A run without a fault ends with a cycle that succeeds, after a shorter run without a fault. -/
theorem run_succ (succeeds : (machine.run (count + 1)).fault = none) :
    (machine.run count).fault = none ∧
      ∃ signal, (machine.run count).machine.cycle.result = .ok signal ∧
        (machine.run (count + 1)).machine = (machine.run count).machine.cycle.machine ∧
        (machine.run (count + 1)).signals = signal :: (machine.run count).signals := by
  rw [run_add] at succeeds ⊢
  cases failed : (machine.run count).fault with
  | some fault =>
    rw [Run.proceed_of_fault failed, failed] at succeeds
    cases succeeds
  | none =>
    have advanced : (machine.run count).proceed 1 = (machine.run count).advance := by
      simp only [Run.proceed, failed]
    rw [advanced] at succeeds ⊢
    cases ended : (machine.run count).machine.cycle.result with
    | ok signal =>
      rw [Run.advance_of_ok ended]
      exact ⟨rfl, signal, rfl, rfl, rfl⟩
    | error fault =>
      rw [Run.advance_of_error ended] at succeeds
      cases succeeds

/-- A run without a fault leads where its cycles lead one after another. -/
theorem machine_run (succeeds : (machine.run count).fault = none) :
    (machine.run count).machine = machine.after (List.replicate count .cycle) := by
  induction count with
  | zero => rfl
  | succ count ih =>
    obtain ⟨earlier, signal, -, last, -⟩ := run_succ succeeds
    rw [last, ih earlier, List.replicate_succ', after_concat]
    rfl

/-- So many cycles succeed, one after another. -/
def SucceedsFor (machine : Machine) (count : Nat) : Prop :=
  ∀ k < count, (machine.after (List.replicate k .cycle)).cycle.result.isOk

instance (machine : Machine) (count : Nat) : Decidable (machine.SucceedsFor count) :=
  inferInstanceAs (Decidable (∀ k < count, _))

/-- A cycle fails, and the `count` cycles before it succeed. -/
structure FailsAfter (machine : Machine) (count : Nat) (fault : Fault) : Prop where
  succeeds : machine.SucceedsFor count
  fails : (machine.after (List.replicate count .cycle)).cycle.result = .error fault

theorem succeedsFor_or_failsAfter (machine : Machine) (count : Nat) :
    machine.SucceedsFor count ∨ ∃ k < count, ∃ fault, machine.FailsAfter k fault := by
  induction count with
  | zero => exact .inl nofun
  | succ count ih =>
    obtain succeeds | ⟨k, within, fault, fails⟩ := ih
    · cases ended : (machine.after (List.replicate count .cycle)).cycle.result with
      | ok signal =>
        refine .inl fun k within => ?_
        obtain earlier | rfl := Nat.lt_succ_iff_lt_or_eq.mp within
        · exact succeeds k earlier
        · rw [ended]
          rfl
      | error fault => exact .inr ⟨count, Nat.lt_succ_self count, fault, succeeds, ended⟩
    · exact .inr ⟨k, Nat.lt_succ_of_lt within, fault, fails⟩

theorem fault_run_of_succeedsFor (succeeds : machine.SucceedsFor count) :
    (machine.run count).fault = none := by
  induction count with
  | zero => rfl
  | succ count ih =>
    have earlier : (machine.run count).fault = none :=
      ih fun k within => succeeds k (Nat.lt_succ_of_lt within)
    have last := succeeds count (Nat.lt_succ_self count)
    rw [← machine_run earlier] at last
    rw [run_add]
    unfold Run.proceed
    rw [earlier]
    cases ended : (machine.run count).machine.cycle.result with
    | ok signal =>
      dsimp only [Run.proceed]
      rw [Run.advance_of_ok ended]
      exact earlier
    | error fault =>
      rw [ended] at last
      cases last

/-- A run ends with the first cycle that fails. -/
theorem run_of_failsAfter {k : Nat} {fault : Fault} (fails : machine.FailsAfter k fault)
    (within : k < count) :
    (machine.run count).fault = some fault ∧
      (machine.run count).machine = machine.after (List.replicate (k + 1) .cycle) := by
  have earlier := fault_run_of_succeedsFor fails.succeeds
  have ended := fails.fails
  rw [← machine_run earlier] at ended
  have advanced : machine.run count = (machine.run k).advance := by
    obtain ⟨rest, rfl⟩ := Nat.exists_eq_add_of_lt within
    rw [Nat.add_assoc, run_add]
    unfold Run.proceed
    rw [earlier]
    dsimp only
    apply Run.proceed_of_fault
    rw [Run.advance_of_error ended]
  rw [advanced, Run.machine_advance, machine_run earlier, List.replicate_succ', after_concat,
    Run.advance_of_error ended]
  exact ⟨rfl, rfl⟩

section Frame

variable {keys : List Bool}

theorem frame_of_completed (completed : ((machine.setKeys keys).run count).fault = none) :
    machine.frame keys count =
      { result := .ok ((machine.setKeys keys).run count).lastSignal
        machine := ((machine.setKeys keys).run count).machine.tick
        events := Keypad.snapshotWarnings keys ++ ((machine.setKeys keys).run count).events
        presentation := presentation ((machine.setKeys keys).run count).signals
          ((machine.setKeys keys).run count).machine.screen } := by
  simp only [frame, completed]

theorem frame_of_fault {fault : Fault}
    (failed : ((machine.setKeys keys).run count).fault = some fault) :
    machine.frame keys count =
      { result := .error fault
        machine := ((machine.setKeys keys).run count).machine
        events := Keypad.snapshotWarnings keys ++ ((machine.setKeys keys).run count).events
        presentation := none } := by
  simp only [frame, failed]

/-- A frame whose cycles succeed is its keys, its cycles and one tick. -/
theorem frame_of_succeedsFor (succeeds : (machine.setKeys keys).SucceedsFor count) :
    (machine.frame keys count).result.isOk ∧
      (machine.frame keys count).machine =
        machine.after (.setKeys keys :: List.replicate count .cycle ++ [.tick]) := by
  have completed := fault_run_of_succeedsFor succeeds
  rw [frame_of_completed completed, machine_run completed, after_concat, after_cons]
  exact ⟨rfl, rfl⟩

/-- A frame ends with the first of its cycles that fails, and without a tick. -/
theorem frame_of_failsAfter {k : Nat} {fault : Fault}
    (fails : (machine.setKeys keys).FailsAfter k fault) (within : k < count) :
    (machine.frame keys count).result = .error fault ∧
      (machine.frame keys count).machine =
        machine.after (.setKeys keys :: List.replicate (k + 1) .cycle) := by
  obtain ⟨failed, left⟩ := run_of_failsAfter fails within
  rw [frame_of_fault failed, left]
  exact ⟨rfl, rfl⟩

end Frame

section Invariant

variable {holds : Machine → Prop}

/-- What every cycle preserves holds at the end of a run, whether the run fails or not. -/
theorem proceed_preserves (cycle : ∀ machine : Machine, holds machine → holds machine.cycle.machine)
    {run : Run} (start : holds run.machine) (count : Nat) : holds (run.proceed count).machine := by
  induction count generalizing run with
  | zero => exact start
  | succ count ih =>
    unfold Run.proceed
    cases failed : run.fault with
    | some fault => exact start
    | none =>
      apply ih
      rw [Run.machine_advance]
      exact cycle run.machine start

/-- A frame is made of cycles and of actions between cycles, so that it preserves what they do. -/
theorem frame_preserves (cycle : ∀ machine : Machine, holds machine → holds machine.cycle.machine)
    (between : ∀ machine : Machine, ∀ action : Action, action.runsCycles = false →
      holds machine → holds (machine.act action).machine)
    (start : holds machine) (keys : List Bool) (count : Nat) :
    holds (machine.frame keys count).machine := by
  have pressed : holds (machine.setKeys keys) := between machine (.setKeys keys) rfl start
  have ended : holds ((machine.setKeys keys).run count).machine :=
    proceed_preserves cycle pressed count
  cases failed : ((machine.setKeys keys).run count).fault with
  | some fault =>
    rw [frame_of_fault failed]
    exact ended
  | none =>
    rw [frame_of_completed failed]
    exact between _ .tick rfl ended

/-- What every cycle and every action between cycles preserves holds after every session. -/
theorem after_preserves (cycle : ∀ machine : Machine, holds machine → holds machine.cycle.machine)
    (between : ∀ machine : Machine, ∀ action : Action, action.runsCycles = false →
      holds machine → holds (machine.act action).machine)
    (start : holds machine) (session : List Action) : holds (machine.after session) := by
  induction session generalizing machine with
  | nil => exact start
  | cons action session ih =>
    apply ih
    cases action with
    | cycle => exact cycle machine start
    | frame keys count => exact frame_preserves cycle between start keys count
    | _ => exact between machine _ rfl start

end Invariant

/-- The machines that the cycles of an action start from. -/
def cycleStarts (machine : Machine) : Action → List Machine
  | .cycle => [machine]
  | .frame keys cycles => (Run.start (machine.setKeys keys)).visits cycles
  | _ => []

end Machine

end Chip8
