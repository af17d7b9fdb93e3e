import Mathlib.Control.Monad.Basic
import Chip8.Proofs.Presentation

/-! # A frame and its cycles

A frame stops at the first cycle that fails. `Machine.frame_of_cycles` says what a frame comes to
in terms of its cycles, done one after another: their number, the result of the last one, whether
the timers tick and whether a display is told. The keys that were down before a frame make no
difference to any of it.
-/

namespace Chip8.Machine

variable {machine : Machine} {keys : List Bool} {count : Nat}

/-- The result of the last of `count` cycles; to do nothing is quiet. -/
def lastResult (machine : Machine) : (count : Nat) → Except Fault Signal
  | 0 => .ok .quiet
  | count + 1 => (machine.after (List.replicate count .cycle)).cycle.result

private theorem lastSignal_run (succeeds : machine.SucceedsFor count) :
    .ok (machine.run count).lastSignal = machine.lastResult count := by
  cases count with
  | zero => rfl
  | succ count =>
    obtain ⟨earlier, signal, ended, -, signals⟩ := run_succ (fault_run_of_succeedsFor succeeds)
    rw [machine_run earlier] at ended
    rw [Run.lastSignal, signals, List.headD_cons, lastResult, ended]

/-- Cycles of which none is the first to fail succeed. -/
theorem succeedsFor_of_forall_not_failsAfter
    (unfailing : ∀ k < count, ∀ fault, ¬ machine.FailsAfter k fault) :
    machine.SucceedsFor count := by
  obtain succeeds | ⟨k, within, fault, fails⟩ := machine.succeedsFor_or_failsAfter count
  · exact succeeds
  · exact absurd fails (unfailing k within fault)

private theorem result_frame_of_succeedsFor (succeeds : (machine.setKeys keys).SucceedsFor count) :
    (machine.frame keys count).result = (machine.setKeys keys).lastResult count := by
  rw [frame_of_completed (fault_run_of_succeedsFor succeeds)]
  exact lastSignal_run succeeds

private theorem calls_frame_of_failsAfter {k : Nat} {fault : Fault}
    (fails : (machine.setKeys keys).FailsAfter k fault) (within : k < count) :
    (machine.frame keys count).calls = [] := by
  rw [frame_of_fault (run_of_failsAfter fails within).1]
  rfl

/-- A frame takes all keys from its snapshot, also if the snapshot is too short. -/
theorem frame_of_other_keypad (machine : Machine) (keypad : Keypad) (keys : List Bool)
    (count : Nat) : { machine with keypad := keypad }.frame keys count = machine.frame keys count :=
  rfl

/-- A frame is its cycles and one tick, and a frame that fails shows nothing.

If one of the cycles is the first to fail, then the frame fails like it, the machine is left as
this cycle leaves it, without a tick, and a display is told nothing, whatever was drawn or cleared
before. If none of them fails, then the result of the frame is that of its last cycle, and the
machine is left as the cycles leave it, after one tick. The keys before the frame do not count. -/
theorem frame_of_cycles (machine : Machine) (keys : List Bool) (cycles : Nat) :
    let started := machine.setKeys keys
    let frame := machine.frame keys cycles
    (∀ k < cycles, ∀ fault, started.FailsAfter k fault →
      frame.result = .error fault ∧
        frame.machine = machine.after (.setKeys keys :: List.replicate (k + 1) .cycle) ∧
        frame.calls = []) ∧
    ((∀ k < cycles, ∀ fault, ¬ started.FailsAfter k fault) →
      frame.result = started.lastResult cycles ∧
        frame.machine = machine.after (.setKeys keys :: List.replicate cycles .cycle ++ [.tick])) ∧
    ∀ keypad : Keypad, { machine with keypad := keypad }.frame keys cycles = frame := by
  intro started frame
  refine ⟨?_, ?_, fun keypad => machine.frame_of_other_keypad keypad keys cycles⟩
  · intro k within fault fails
    obtain ⟨result, left⟩ := frame_of_failsAfter fails within
    exact ⟨result, left, calls_frame_of_failsAfter fails within⟩
  · intro unfailing
    have succeeds : started.SucceedsFor cycles := succeedsFor_of_forall_not_failsAfter unfailing
    obtain ⟨-, left⟩ := frame_of_succeedsFor succeeds
    exact ⟨result_frame_of_succeedsFor succeeds, left⟩

/-- A machine whose program draws the zero and clears the screen, and then ends. -/
def drawAndEnd : Machine := boot .standard (.ofSeed 0) [0xD0, 0x05, 0x00, 0xE0, 0xD0, 0x05]

/-- Three cycles make a frame that draws. A fourth one makes the frame fail, and then a display is
told nothing of what the three have drawn. -/
theorem frame_of_cycles_drawAndEnd :
    let started := drawAndEnd.setKeys [true]
    started.FailsAfter 3 (.emptyFetch 0x206) ∧
      (drawAndEnd.frame [true] 3).result = .ok .draw ∧
      (drawAndEnd.frame [true] 4).result = .error (.emptyFetch 0x206) ∧
      (drawAndEnd.frame [true] 4).machine.screen.isLit 0 0 = true ∧
      (drawAndEnd.frame [true] 4).calls = [] := by
  intro started
  obtain ⟨succeeds, ended, draws, lit⟩ : started.SucceedsFor 3 ∧
      (started.after (List.replicate 3 .cycle)).cycle.result = .error (.emptyFetch 0x206) ∧
      started.lastResult 3 = .ok .draw ∧
      (drawAndEnd.after (.setKeys [true] :: List.replicate 4 .cycle)).screen.isLit 0 0 = true := by
    decide +kernel
  have fails : started.FailsAfter 3 (.emptyFetch 0x206) := ⟨succeeds, ended⟩
  obtain ⟨-, completing, -⟩ := frame_of_cycles drawAndEnd [true] 3
  obtain ⟨failing, -, -⟩ := frame_of_cycles drawAndEnd [true] 4
  have unfailing : ∀ k < 3, ∀ fault, ¬ started.FailsAfter k fault := by
    intro k within fault first
    have ok := succeeds k within
    rw [first.fails] at ok
    cases ok
  obtain ⟨result, left, untold⟩ := failing 3 (by decide) _ fails
  exact ⟨fails, (completing unfailing).1.trans draws, result, by rw [left]; exact lit, untold⟩

end Chip8.Machine
