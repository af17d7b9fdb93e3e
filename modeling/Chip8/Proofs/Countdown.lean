import Mathlib.Data.List.Induction
import Chip8.Proofs.Footprint
import Chip8.Proofs.History
import Chip8.Proofs.Reachable

/-! # What a timer has counted down from

A timer remembers nothing but its value. `Machine.timer_counts_down` says that the value still
tells about the past: it is what the last instruction that set the timer gave it, less the ticks
since then, and zero once there were as many of them. A frame ticks once if it succeeds, and a frame
that fails does not tick.
-/

namespace Chip8

/-- One of the two timers. -/
inductive Countdown where
  | delay
  | sound
deriving DecidableEq

namespace Countdown

/-- What is left on the timer. -/
def value (timer : Countdown) (machine : Machine) : Nat :=
  match timer with
  | .delay => machine.delay.value
  | .sound => machine.sound.value

/-- The instruction that gives the timer the value of a register. -/
def setter : Countdown → Register → Instruction
  | .delay => .setDelay
  | .sound => .setSound

/-- No cycle of a session sets the timer. -/
def Untouched (timer : Countdown) (machine : Machine) (session : List Action) : Prop :=
  ∀ met ∈ machine.visited session, ∀ x, met.upcoming? ≠ some (timer.setter x)

instance (timer : Countdown) (machine : Machine) (session : List Action) :
    Decidable (timer.Untouched machine session) :=
  inferInstanceAs (Decidable (∀ met ∈ machine.visited session, ∀ x,
    met.upcoming? ≠ some (timer.setter x)))

/-- The value that the timer was last set to in a session of single steps, and the ticks since then.
A timer that was never set has counted from zero. -/
inductive LastSet (timer : Countdown) (machine : Machine) : List Action → Nat → Nat → Prop
  | never {session : List Action} (untouched : timer.Untouched machine session) :
      LastSet timer machine session 0 (session.count .tick)
  | since {earlier later : List Action} {x : Register}
      (sets : (machine.after earlier).upcoming? = some (timer.setter x))
      (untouched : timer.Untouched (machine.after (earlier ++ [.cycle])) later) :
      LastSet timer machine (earlier ++ .cycle :: later)
        ((machine.after earlier).register x).toNat (later.count .tick)

variable {timer : Countdown} {machine : Machine} {action : Action} {session : List Action}

theorem value_tick (timer : Countdown) (machine : Machine) :
    timer.value machine.tick = timer.value machine - 1 := by
  cases timer <;> rfl

private theorem value_act_between_cycles (between : action.runsCycles = false)
    (other : action ≠ .tick) :
    timer.value (machine.act action).machine = timer.value machine := by
  have alone := machine.act_between_cycles between
  cases timer with
  | delay => exact congrArg Timer.value (alone.delay other)
  | sound => exact congrArg Timer.value (alone.sound other)

private theorem value_cycle_of_setter {x : Register}
    (next : machine.upcoming? = some (timer.setter x)) :
    timer.value machine.cycle.machine = (machine.register x).toNat := by
  rw [(Machine.cycle_of_upcoming next).2]
  cases timer <;> rfl

private theorem value_cycle_of_other (other : ∀ x, machine.upcoming? ≠ some (timer.setter x)) :
    timer.value machine.cycle.machine = timer.value machine := by
  have same := machine.cycle_sameExcept
  unfold Machine.touchedNext at same
  cases next : machine.upcoming? with
  | none =>
    rw [next] at same
    cases timer with
    | delay => exact congrArg Timer.value (same.delay (by simp))
    | sound => exact congrArg Timer.value (same.sound (by simp))
  | some instruction =>
    rw [next] at same other
    cases timer with
    | delay =>
      refine congrArg Timer.value (same.delay ?_)
      cases instruction with
      | setDelay x => exact absurd rfl (other x)
      | _ => simp [Instruction.touches]
    | sound =>
      refine congrArg Timer.value (same.sound ?_)
      cases instruction with
      | setSound x => exact absurd rfl (other x)
      | _ => simp [Instruction.touches]

private theorem untouched_nil : timer.Untouched machine [] := List.forall_mem_nil _

private theorem untouched_cons_iff : timer.Untouched machine (action :: session) ↔
    (∀ met ∈ machine.cycleStarts action, ∀ x, met.upcoming? ≠ some (timer.setter x)) ∧
      timer.Untouched (machine.act action).machine session :=
  List.forall_mem_append

/-- A timer that is not set counts the ticks. -/
theorem value_after_of_untouched (single : ∀ keys cycles, .frame keys cycles ∉ session)
    (untouched : timer.Untouched machine session) :
    timer.value (machine.after session) = timer.value machine - session.count .tick := by
  induction session generalizing machine with
  | nil => rfl
  | cons action session ih =>
    have rest := fun keys cycles => List.not_mem_of_not_mem_cons (single keys cycles)
    obtain ⟨first, later⟩ := untouched_cons_iff.mp untouched
    rw [Machine.after_cons, ih rest later]
    by_cases ticks : action = .tick
    · subst ticks
      rw [List.count_cons_self, Nat.add_comm, ← Nat.sub_sub]
      exact congrArg (· - _) (value_tick timer machine)
    · rw [List.count_cons_of_ne ticks]
      obtain rfl | between := Machine.eq_cycle_or_between single List.mem_cons_self
      · have same := value_cycle_of_other (first machine List.mem_cons_self)
        exact congrArg (· - _) same
      · rw [value_act_between_cycles between ticks]

private theorem LastSet.value_after {last ticks : Nat}
    (single : ∀ keys cycles, .frame keys cycles ∉ session) (initial : timer.value machine = 0)
    (set : timer.LastSet machine session last ticks) :
    timer.value (machine.after session) = last - ticks := by
  cases set with
  | never untouched => rw [value_after_of_untouched single untouched, initial]
  | @since earlier later x sets untouched =>
    have rest : ∀ keys cycles, .frame keys cycles ∉ later := by
      intro keys cycles present
      exact single keys cycles (List.mem_append_right _ (List.mem_cons_of_mem _ present))
    have split : earlier ++ .cycle :: later = (earlier ++ [.cycle]) ++ later := by simp
    rw [split, Machine.after_append, value_after_of_untouched rest untouched,
      Machine.after_concat, Machine.machine_act_cycle, value_cycle_of_setter sets]

private theorem untouched_cycle_iff : timer.Untouched machine [.cycle] ↔
    ∀ x, machine.upcoming? ≠ some (timer.setter x) := by
  simp [Untouched, Machine.visited, Machine.cycleStarts]

private theorem untouched_of_between (between : action.runsCycles = false) :
    timer.Untouched machine [action] := by
  rw [untouched_cons_iff]
  cases action with
  | cycle | frame => cases between
  | _ => exact ⟨List.forall_mem_nil _, untouched_nil⟩

theorem Untouched.concat (untouched : timer.Untouched machine session)
    (last : timer.Untouched (machine.after session) [action]) :
    timer.Untouched machine (session ++ [action]) := by
  unfold Untouched
  rw [Machine.visited_append]
  exact List.forall_mem_append.mpr ⟨untouched, last⟩

/-- A session is split at the last cycle that set the timer, if there is one. -/
theorem exists_lastSet (timer : Countdown) (machine : Machine)
    (single : ∀ keys cycles, .frame keys cycles ∉ session) :
    ∃ last ticks, timer.LastSet machine session last ticks := by
  induction session using List.reverseRecOn with
  | nil => exact ⟨_, _, .never untouched_nil⟩
  | append_singleton session action ih =>
    obtain ⟨last, ticks, set⟩ := ih fun keys cycles present =>
      single keys cycles (List.mem_append_left _ present)
    by_cases again : timer.Untouched (machine.after session) [action]
    · cases set with
      | never untouched => exact ⟨_, _, .never (untouched.concat again)⟩
      | @since earlier later x sets untouched =>
        rw [List.append_assoc, List.cons_append]
        refine ⟨_, _, .since sets (untouched.concat ?_)⟩
        rw [← Machine.after_append, List.append_assoc]
        exact again
    · have present : action ∈ session ++ [action] := List.mem_append_right _ List.mem_cons_self
      obtain rfl | between := Machine.eq_cycle_or_between single present
      · rw [untouched_cycle_iff, not_forall] at again
        obtain ⟨x, sets⟩ := again
        exact ⟨_, _, .since (not_not.mp sets) untouched_nil⟩
      · exact absurd (untouched_of_between between) again

end Countdown

namespace Machine

private theorem readDelay_toNat {machine : Machine} {x : Register}
    (inRange : machine.InRange) (next : machine.upcoming? = some (.readDelay x)) :
    (machine.cycle.machine.register x).toNat = machine.delay.value := by
  have bound := inRange.delay
  have stored : machine.cycle.machine.register x = UInt8.ofNat machine.delay.value := by
    rw [(cycle_of_upcoming next).2]
    exact (register_setRegister _ x x _).trans (if_pos rfl)
  rw [stored, UInt8.toNat_ofNat']
  omega

/-- The value of a timer at any moment of a session, also in the middle of a frame, is the value
that the last instruction to set it gave it, less the ticks since then, and never less than zero; a
timer that was not set is at zero. There is one tick for every tick from outside and one for every
frame that succeeds. The instruction that reads the delay timer stores this number as it is. -/
theorem timer_counts_down (dialect : Dialect) (random : Random) (program : List UInt8)
    (session moment : List Action) (timer : Countdown)
    (within : moment <+: (boot dialect random program).unrolled session) :
    let start := boot dialect random program
    let now := start.after moment
    start.after (start.unrolled session) = start.after session ∧
      (∃ last ticks, timer.LastSet start moment last ticks) ∧
      ∀ last ticks, timer.LastSet start moment last ticks →
        timer.value now = last - ticks ∧
          (timer = .delay → ∀ x, now.upcoming? = some (.readDelay x) →
            now.cycle.result = .ok .quiet ∧
              (now.cycle.machine.register x).toNat = last - ticks) := by
  intro start now
  have single : ∀ keys cycles, .frame keys cycles ∉ moment := by
    intro keys cycles present
    exact start.frame_not_mem_unrolled session keys cycles (within.mem present)
  refine ⟨start.after_unrolled session, timer.exists_lastSet start single, ?_⟩
  intro last ticks set
  have initial : timer.value start = 0 := by cases timer <;> rfl
  have left := set.value_after single initial
  refine ⟨left, ?_⟩
  rintro rfl x next
  have inRange := inRange_after dialect random program moment
  exact ⟨(cycle_of_upcoming next).1, (readDelay_toNat inRange next).trans left⟩

/-- A machine whose program sets the delay timer to five and then reads it over and over. -/
def timerReader : Machine :=
  boot .standard (.ofSeed 0) [0x60, 0x05, 0xF0, 0x15, 0xF1, 0x07, 0x12, 0x04]

/-- The timer is set in a frame that succeeds, a tick follows, a frame fails for want of an
instruction, and the timer is read in the middle of a third frame. -/
theorem timer_counts_down_timerReader :
    let session := [.frame [] 2, .tick, .setCounter 4095, .frame [] 3, .setCounter 0x204,
      .frame [] 2]
    let moment := [.setKeys [], .cycle, .cycle, .tick, .tick, .setCounter 4095, .setKeys [], .cycle,
      .setCounter 0x204, .setKeys []]
    let now := timerReader.after moment
    moment <+: timerReader.unrolled session ∧ Countdown.LastSet .delay timerReader moment 5 2 ∧
      now.upcoming? = some (.readDelay 1) ∧
      now.delay.value = 5 - 2 ∧ (now.cycle.machine.register 1).toNat = 5 - 2 := by
  intro session moment now
  let earlier : List Action := [.setKeys [], .cycle]
  let later : List Action :=
    [.tick, .tick, .setCounter 4095, .setKeys [], .cycle, .setCounter 0x204, .setKeys []]
  obtain ⟨within, next, sets, untouched, five⟩ : moment <+: timerReader.unrolled session ∧
      now.upcoming? = some (.readDelay 1) ∧
      (timerReader.after earlier).upcoming? = some (Countdown.delay.setter 0) ∧
      Countdown.delay.Untouched (timerReader.after (earlier ++ [.cycle])) later ∧
      ((timerReader.after earlier).register 0).toNat = 5 := by decide +kernel
  have set : Countdown.LastSet .delay timerReader moment 5 2 := by
    have since := Countdown.LastSet.since sets untouched
    rw [five] at since
    exact since
  have counted := (timer_counts_down _ _ _ session moment .delay within).2.2 5 2 set
  rw [← timerReader] at counted
  exact ⟨within, set, next, counted.1, (counted.2 rfl 1 next).2⟩

end Machine

end Chip8
