import Chip8.Machine.Session

/-! # Sessions step by step

How the machine after a session follows from the machine after a shorter one. Invariants of whole
sessions are proved from what one action preserves with these statements.
-/

namespace Chip8

/-- Whether an action runs cycles. -/
def Action.runsCycles : Action → Bool
  | .cycle | .frame _ _ => true
  | _ => false

namespace Machine

variable (machine : Machine)

theorem machine_act_cycle : (machine.act .cycle).machine = machine.cycle.machine := rfl

/-- A poke changes nothing but memory, and that as an attempt to store the block does. -/
theorem poke_eq (address : Nat) (block : List UInt8) :
    machine.poke address block =
      { result := (machine.memory.putBlock address block).1.map fun _ => .quiet
        machine := { machine with memory := (machine.memory.putBlock address block).2 }
        events := [] } := by
  unfold poke
  obtain ⟨_ | _, memory⟩ := machine.memory.putBlock address block <;> rfl

/-- What an action leaves alone that is no cycle and no frame. Only a tick moves the timers. -/
structure BetweenCycles (machine : Machine) (action : Action) : Prop where
  stack : (machine.act action).machine.stack = machine.stack
  screen : (machine.act action).machine.screen = machine.screen
  awaiting : (machine.act action).machine.awaiting = machine.awaiting
  random : (machine.act action).machine.random = machine.random
  dialect : (machine.act action).machine.dialect = machine.dialect
  delay : action ≠ .tick → (machine.act action).machine.delay = machine.delay
  sound : action ≠ .tick → (machine.act action).machine.sound = machine.sound
  /-- A display is told nothing. -/
  presentation : (machine.act action).presentation = none

theorem act_between_cycles {action : Action} (between : action.runsCycles = false) :
    machine.BetweenCycles action := by
  cases action with
  | cycle | frame => cases between
  | tick => exact ⟨rfl, rfl, rfl, rfl, rfl, fun other => absurd rfl other,
      fun other => absurd rfl other, rfl⟩
  | setKeys keys => constructor <;> simp only [act, Outcome.done, setKeys, implies_true]
  | poke address block =>
    constructor <;> simp only [act, poke_eq, Outcome.unseen, implies_true]
  | _ => exact ⟨rfl, rfl, rfl, rfl, rfl, fun _ => rfl, fun _ => rfl, rfl⟩

@[simp] theorem after_nil : machine.after [] = machine := rfl

theorem after_cons (action : Action) (session : List Action) :
    machine.after (action :: session) = (machine.act action).machine.after session := rfl

theorem after_concat (session : List Action) (action : Action) :
    machine.after (session ++ [action]) = ((machine.after session).act action).machine := by
  rw [after_append]
  rfl

/-- A cycle that changes nothing changes nothing however often it is repeated. -/
theorem after_replicate_cycle_of_stopped {machine : Machine}
    (stopped : machine.cycle.machine = machine) (count : Nat) :
    machine.after (List.replicate count .cycle) = machine := by
  induction count with
  | zero => rfl
  | succ count ih =>
    rw [List.replicate_succ, after_cons, machine_act_cycle, stopped, ih]

section Throughout

variable {machine : Machine} {holds : Machine → Action → Prop} {action : Action}
  {session : List Action}

/-- What holds of every action of a session and the machine that it meets. -/
def Throughout (machine : Machine) (holds : Machine → Action → Prop)
    (session : List Action) : Prop :=
  ∀ earlier action later, session = earlier ++ action :: later →
    holds (machine.after earlier) action

theorem throughout_nil : machine.Throughout holds [] := by
  intro earlier action later split
  simp at split

theorem throughout_cons_iff : machine.Throughout holds (action :: session) ↔
    holds machine action ∧ (machine.act action).machine.Throughout holds session := by
  constructor
  · intro all
    refine ⟨all [] action session rfl, ?_⟩
    intro earlier next later split
    exact all (action :: earlier) next later (by rw [split, List.cons_append])
  · rintro ⟨first, rest⟩ earlier next later split
    cases earlier with
    | nil =>
      obtain ⟨rfl, -⟩ := List.cons.inj split
      exact first
    | cons same earlier =>
      obtain ⟨rfl, shorter⟩ := List.cons.inj split
      exact rest earlier next later shorter

theorem Throughout.left {earlier later : List Action}
    (all : machine.Throughout holds (earlier ++ later)) : machine.Throughout holds earlier := by
  intro first action rest split
  exact all first action (rest ++ later) (by rw [split, List.append_assoc, List.cons_append])

instance decidableThroughout [decidable : ∀ machine action, Decidable (holds machine action)] :
    (machine : Machine) → (session : List Action) → Decidable (machine.Throughout holds session)
  | _, [] => isTrue throughout_nil
  | machine, action :: session =>
    have := decidableThroughout (machine.act action).machine session
    decidable_of_iff _ throughout_cons_iff.symm

end Throughout

end Machine

end Chip8
