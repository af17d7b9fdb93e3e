import Chip8.Proofs.Run

/-! # Histories

What a machine has been through is a matter of its single cycles, also of those inside of frames.
`Machine.visited` lists the machines that they start from. `Machine.unrolled` writes a session
without frames: the keys of a frame, its cycles one by one, and its tick if it succeeds. Then every
moment of a session, also one in the middle of a frame, is the end of a shorter session.
`Machine.after_unrolled` and `Machine.visited_unrolled` say that nothing is lost on the way.
-/

namespace Chip8.Machine

variable {machine : Machine} {action : Action} {session : List Action}

/-- The machines that the cycles of a session start from. -/
def visited (machine : Machine) : List Action → List Machine
  | [] => []
  | action :: session => machine.cycleStarts action ++ (machine.act action).machine.visited session

/-- An action in single steps. A frame sets the keys and runs its cycles, the one that fails
included; it ticks if none of them fails. -/
def singleSteps (machine : Machine) : Action → List Action
  | .frame keys cycles =>
    .setKeys keys :: List.replicate (machine.cycleStarts (.frame keys cycles)).length .cycle
      ++ if (machine.frame keys cycles).result.isOk then [.tick] else []
  | action => [action]

/-- A session in single steps. -/
def unrolled (machine : Machine) : List Action → List Action
  | [] => []
  | action :: session => machine.singleSteps action ++ (machine.act action).machine.unrolled session

theorem visited_append (machine : Machine) (first second : List Action) :
    machine.visited (first ++ second) =
      machine.visited first ++ (machine.after first).visited second := by
  induction first generalizing machine with
  | nil => rfl
  | cons action first ih =>
    rw [List.cons_append, visited, visited, ih, List.append_assoc, after_cons]

theorem frame_not_mem_unrolled (machine : Machine) (session : List Action) (keys : List Bool)
    (cycles : Nat) : .frame keys cycles ∉ machine.unrolled session := by
  induction session generalizing machine with
  | nil => exact List.not_mem_nil
  | cons action session ih =>
    rw [unrolled, List.mem_append, not_or]
    refine ⟨?_, ih _⟩
    cases action with
    | frame otherKeys otherCycles =>
      unfold singleSteps
      split <;> simp
    | _ => simp [singleSteps]

/-- A session of single steps is made of cycles and of actions between cycles. -/
theorem eq_cycle_or_between (single : ∀ keys cycles, .frame keys cycles ∉ session)
    (present : action ∈ session) : action = .cycle ∨ action.runsCycles = false := by
  cases action with
  | cycle => exact .inl rfl
  | frame keys cycles => exact absurd present (single keys cycles)
  | _ => exact .inr rfl

private theorem after_visits (run : Run) (count : Nat) :
    run.machine.after (List.replicate (run.visits count).length .cycle) =
      (run.proceed count).machine := by
  induction count generalizing run with
  | zero => rfl
  | succ count ih =>
    unfold Run.visits Run.proceed
    cases run.fault with
    | some fault => rfl
    | none =>
      dsimp only
      rw [← ih, Run.machine_advance]
      rfl

private theorem visited_visits (run : Run) (count : Nat) :
    run.machine.visited (List.replicate (run.visits count).length .cycle) = run.visits count := by
  induction count generalizing run with
  | zero => rfl
  | succ count ih =>
    unfold Run.visits
    cases run.fault with
    | some fault => rfl
    | none =>
      dsimp only
      rw [List.length_cons, List.replicate_succ, visited, machine_act_cycle, ← Run.machine_advance,
        ih]
      rfl

private theorem after_singleSteps (machine : Machine) (action : Action) :
    machine.after (machine.singleSteps action) = (machine.act action).machine := by
  cases action with
  | frame keys cycles =>
    have ran : ((machine.setKeys keys).run cycles).machine = (machine.setKeys keys).after
        (List.replicate (machine.cycleStarts (.frame keys cycles)).length .cycle) :=
      (after_visits (Run.start (machine.setKeys keys)) cycles).symm
    rw [singleSteps, List.cons_append, after_cons, after_append]
    cases failed : ((machine.setKeys keys).run cycles).fault with
    | some fault =>
      rw [act, frame_of_fault failed, ran]
      rfl
    | none =>
      rw [act, frame_of_completed failed, ran]
      rfl
  | _ => rfl

private theorem visited_singleSteps (machine : Machine) (action : Action) :
    machine.visited (machine.singleSteps action) = machine.cycleStarts action := by
  cases action with
  | frame keys cycles =>
    have ran : (machine.setKeys keys).visited
        (List.replicate (machine.cycleStarts (.frame keys cycles)).length .cycle) =
          machine.cycleStarts (.frame keys cycles) :=
      visited_visits (Run.start (machine.setKeys keys)) cycles
    have ticks (met : Machine) (ends : Bool) :
        met.visited (if ends then [.tick] else []) = [] := by cases ends <;> rfl
    rw [singleSteps, List.cons_append, visited, visited_append, ticks, List.append_nil]
    exact ran
  | _ => exact List.append_nil _

theorem after_unrolled (machine : Machine) (session : List Action) :
    machine.after (machine.unrolled session) = machine.after session := by
  induction session generalizing machine with
  | nil => rfl
  | cons action session ih => rw [unrolled, after_append, after_singleSteps, ih, after_cons]

theorem visited_unrolled (machine : Machine) (session : List Action) :
    machine.visited (machine.unrolled session) = machine.visited session := by
  induction session generalizing machine with
  | nil => rfl
  | cons action session ih =>
    rw [unrolled, visited_append, visited_singleSteps, after_singleSteps, ih, visited]

end Chip8.Machine
