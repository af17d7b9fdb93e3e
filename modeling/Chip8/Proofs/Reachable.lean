import Chip8.Proofs.Cycle
import Chip8.Proofs.Footprint
import Chip8.Proofs.Run

/-! # What every session keeps in range

`Machine.InRange` bounds the parts of a machine that have more values than a program can give them.
It holds of a machine that has just been booted, and `Machine.inRange_after` says that no session
leaves it: not by a cycle, whether it succeeds or fails, and not by what is done between cycles.
-/

namespace Chip8.Machine

variable {machine : Machine} {instruction : Instruction} {action : Action}

/-- The bounds of a machine. The sizes of memory and screen and the number of the awaited register
are bounded by their types already. -/
structure InRange (machine : Machine) : Prop where
  depth : machine.stack.length ≤ 16
  addresses : ∀ address ∈ machine.stack, 2 ≤ address.toNat ∧ address.toNat ≤ 4096
  delay : machine.delay.value ≤ 255
  sound : machine.sound.value ≤ 255

/-- The counter is behind an instruction that was fetched. -/
def IsBehindFetch (machine : Machine) : Prop :=
  2 ≤ machine.counter.toNat ∧ machine.counter.toNat ≤ 4096

theorem isBehindFetch_advanceCounter {word : Word} (points : machine.PointsTo word) :
    machine.advanceCounter.IsBehindFetch := by
  have moved := toNat_counter_advanceCounter points
  obtain ⟨inside, -⟩ := points
  exact ⟨by omega, by omega⟩

theorem InRange.of_same {before after : Machine} (inRange : before.InRange)
    (stack : after.stack = before.stack) (delay : after.delay = before.delay)
    (sound : after.sound = before.sound) : after.InRange where
  depth := stack ▸ inRange.depth
  addresses := stack ▸ inRange.addresses
  delay := delay ▸ inRange.delay
  sound := sound ▸ inRange.sound

/-- A call stores the address behind itself, if there is room for it. -/
theorem InRange.call (inRange : machine.InRange) (behind : machine.IsBehindFetch)
    (target : UInt16) : (machine.call target).machine.InRange := by
  obtain ⟨room, -, left⟩ | ⟨-, failed⟩ := machine.call_cases target
  · rw [left]
    refine ⟨?_, ?_, inRange.delay, inRange.sound⟩
    · rw [List.length_cons]
      omega
    · intro address stored
      rcases List.mem_cons.mp stored with rfl | earlier
      · exact behind
      · exact inRange.addresses address earlier
  · rw [failed]
    exact inRange

theorem InRange.ret (inRange : machine.InRange) : machine.ret.machine.InRange := by
  obtain ⟨address, stack, stored, -, left⟩ | ⟨-, failed⟩ := machine.ret_cases
  · have depth := inRange.depth
    have addresses := inRange.addresses
    rw [stored] at depth addresses
    rw [left]
    refine ⟨?_, ?_, inRange.delay, inRange.sound⟩
    · rw [List.length_cons] at depth
      exact Nat.le_of_succ_le depth
    · intro other present
      exact addresses other (List.mem_cons_of_mem address present)
  · rw [failed]
    exact inRange

theorem toNat_register_le (machine : Machine) (x : Register) : (machine.register x).toNat ≤ 255 :=
  Nat.le_of_lt_succ (machine.register x).toNat_lt

/-- Timers are set to bytes, and the stack holds addresses behind calls. -/
theorem InRange.perform (inRange : machine.InRange) (behind : machine.IsBehindFetch)
    (instruction : Instruction) : (machine.perform instruction).machine.InRange := by
  have same := machine.perform_sameExcept instruction
  cases instruction with
  | call target => exact inRange.call behind target
  | ret => exact inRange.ret
  | setDelay x =>
    exact ⟨inRange.depth, inRange.addresses, machine.toNat_register_le x, inRange.sound⟩
  | setSound x =>
    exact ⟨inRange.depth, inRange.addresses, inRange.delay, machine.toNat_register_le x⟩
  | _ =>
    apply inRange.of_same
    · exact same.stack (by simp [Instruction.touches])
    · exact same.delay (by simp [Instruction.touches])
    · exact same.sound (by simp [Instruction.touches])

theorem InRange.cycle (inRange : machine.InRange) : machine.cycle.machine.InRange := by
  obtain ⟨x, -, ran⟩ | ⟨fault, -, -, ran⟩ | ⟨word, -, -, -, ran⟩ |
    ⟨word, instruction, -, fetched, -, ran⟩ := machine.cycle_cases
  · rw [ran]
    obtain ⟨key, -, polled⟩ | ⟨-, polled⟩ := machine.poll_cases x
    · rw [polled]
      exact inRange.of_same rfl rfl rfl
    · rw [polled]
      exact inRange
  · rw [ran]
    exact inRange
  · rw [ran]
    exact inRange.of_same rfl rfl rfl
  · rw [ran]
    have behind := isBehindFetch_advanceCounter (fetch_eq_ok_iff.mp fetched).1
    have advanced : machine.advanceCounter.InRange := inRange.of_same rfl rfl rfl
    exact advanced.perform behind instruction

theorem InRange.act_between_cycles (inRange : machine.InRange)
    (between : action.runsCycles = false) : (machine.act action).machine.InRange := by
  have alone := machine.act_between_cycles between
  by_cases ticks : action = .tick
  · subst ticks
    have delay := inRange.delay
    have sound := inRange.sound
    refine ⟨inRange.depth, inRange.addresses, ?_, ?_⟩
    · change machine.delay.value - 1 ≤ 255
      omega
    · change machine.sound.value - 1 ≤ 255
      omega
  · exact inRange.of_same alone.stack (alone.delay ticks) (alone.sound ticks)

private theorem inRange_boot (dialect : Dialect) (random : Random) (program : List UInt8) :
    (boot dialect random program).InRange := by
  unfold boot fresh
  constructor <;> simp [Timer.zero]

theorem inRange_after (dialect : Dialect) (random : Random) (program : List UInt8)
    (session : List Action) : ((boot dialect random program).after session).InRange := by
  apply after_preserves
  · intro machine inRange
    exact inRange.cycle
  · intro machine action between inRange
    exact inRange.act_between_cycles between
  · exact inRange_boot dialect random program

end Chip8.Machine
