import Chip8.Proofs.Cycle
import Chip8.Proofs.Perform

/-! # What an instruction leaves alone

`Instruction.touches` lists the parts of a machine that an instruction may change.
`Machine.perform_sameExcept` says that all other parts are the same afterwards, whether the
instruction succeeds or not, and `Machine.cycle_sameExcept` says the same of a whole cycle.
`Machine.signal_of_perform` says which signal a success gives.
-/

namespace Chip8

/-- A part of a machine that some instruction changes. The counter is not listed: every instruction
may move it. -/
inductive Part where
  | registers
  | index
  | stack
  | delay
  | sound
  | awaiting
  | random
  | memory
  | screen
deriving DecidableEq

/-- The parts that an instruction may change. -/
def Instruction.touches : Instruction → List Part
  | .clear => [.screen]
  | .ret | .call _ => [.stack]
  | .jump _ | .jumpOffset _ _ => []
  | .skipEqual _ _ | .skipNotEqual _ _ | .skipSame _ _ | .skipDifferent _ _ => []
  | .skipPressed _ | .skipReleased _ => []
  | .set _ _ | .add _ _ | .arithmetic _ _ _ | .readDelay _ => [.registers]
  | .setIndex _ | .glyph _ => [.index]
  | .random _ _ => [.registers, .random]
  | .draw _ _ _ => [.registers, .screen]
  | .awaitKey _ => [.registers, .awaiting]
  | .setDelay _ => [.delay]
  | .setSound _ => [.sound]
  | .addIndex _ => [.registers, .index]
  | .decimal _ => [.memory]
  | .store _ => [.index, .memory]
  | .fill _ => [.registers, .index]

namespace Machine

/-- The two machines agree on everything but the counter and the listed parts. -/
structure SameExcept (parts : List Part) (before after : Machine) : Prop where
  registers : .registers ∉ parts → after.registers = before.registers
  index : .index ∉ parts → after.index = before.index
  stack : .stack ∉ parts → after.stack = before.stack
  delay : .delay ∉ parts → after.delay = before.delay
  sound : .sound ∉ parts → after.sound = before.sound
  awaiting : .awaiting ∉ parts → after.awaiting = before.awaiting
  random : .random ∉ parts → after.random = before.random
  memory : .memory ∉ parts → after.memory = before.memory
  screen : .screen ∉ parts → after.screen = before.screen
  keypad : after.keypad = before.keypad
  dialect : after.dialect = before.dialect

private theorem SameExcept.refl (parts : List Part) (machine : Machine) :
    SameExcept parts machine machine := by
  constructor <;> simp

/-- No instruction changes a part that it is not listed to touch. -/
theorem perform_sameExcept (machine : Machine) (instruction : Instruction) :
    SameExcept instruction.touches machine (machine.perform instruction).machine := by
  cases instruction with
  | ret =>
    obtain ⟨address, stack, -, -, left⟩ | ⟨-, failed⟩ := machine.ret_cases
    · rw [perform, left]
      constructor <;> simp [Instruction.touches]
    · rw [perform, failed]
      exact .refl _ machine
  | call target =>
    obtain ⟨-, -, left⟩ | ⟨-, failed⟩ := machine.call_cases target
    · rw [perform, left]
      constructor <;> simp [Instruction.touches]
    · rw [perform, failed]
      exact .refl _ machine
  | arithmetic operation x y =>
    rw [perform, performArithmetic_eq]
    constructor <;> simp [Instruction.touches, Outcome.done]
  | draw x y height =>
    rw [perform, drawSprite_eq]
    constructor <;> simp [Instruction.touches, setFlag, setRegister]
  | skipPressed x =>
    rw [perform, (machine.testKey_eq x true).2]
    constructor <;> simp [Instruction.touches, follow]
  | skipReleased x =>
    rw [perform, (machine.testKey_eq x false).2]
    constructor <;> simp [Instruction.touches, follow]
  | awaitKey x =>
    obtain ⟨key, -, stored⟩ | ⟨-, waits⟩ := machine.awaitKey_cases x
    · rw [perform, stored]
      constructor <;> simp [Instruction.touches, Outcome.done, setRegister]
    · rw [perform, waits]
      constructor <;> simp [Instruction.touches]
  | decimal x =>
    obtain ⟨memory, -, stored⟩ | ⟨fault, failed⟩ :=
      machine.storeBlock_cases (decimalDigits (machine.register x)) id
    · rw [perform, stored]
      constructor <;> simp [Instruction.touches, Outcome.done]
    · rw [perform, failed]
      exact .refl _ machine
  | store x =>
    obtain ⟨memory, -, stored⟩ | ⟨fault, failed⟩ := machine.storeBlock_cases
      (machine.registers.toList.take (x.val + 1)) (·.advanceIndex (x.val + 1))
    · rw [perform, stored, advanceIndex_eq]
      constructor <;> simp [Instruction.touches, Outcome.done, setIndex]
    · rw [perform, failed]
      exact .refl _ machine
  | fill x =>
    obtain ⟨block, -, filled⟩ | ⟨fault, failed⟩ := machine.fillRegisters_cases x
    · rw [perform, filled, advanceIndex_eq]
      constructor <;> simp [Instruction.touches, Outcome.done, setIndex]
    · rw [perform, failed]
      exact .refl _ machine
  | _ =>
    constructor <;>
      simp [Instruction.touches, perform, Outcome.done, Outcome.signalled, follow, setRegister,
        setIndex, setFlag]

/-- The parts that the next cycle may change. One that carries out no instruction may be a poll,
which stores a key and ends the wait. -/
def touchedNext (machine : Machine) : List Part :=
  match machine.upcoming? with
  | some instruction => instruction.touches
  | none => [.registers, .awaiting]

theorem cycle_sameExcept_of_upcoming {machine : Machine} {instruction : Instruction}
    (next : machine.upcoming? = some instruction) :
    SameExcept instruction.touches machine machine.cycle.machine := by
  rw [(cycle_of_upcoming next).2]
  obtain ⟨registers, index, stack, delay, sound, awaiting, random, memory, screen, keypad,
    dialect⟩ := machine.advanceCounter.perform_sameExcept instruction
  exact ⟨registers, index, stack, delay, sound, awaiting, random, memory, screen, keypad, dialect⟩

/-- A cycle changes nothing but the counter and what its instruction touches. -/
theorem cycle_sameExcept (machine : Machine) :
    SameExcept machine.touchedNext machine machine.cycle.machine := by
  unfold touchedNext
  cases next : machine.upcoming? with
  | some instruction => exact cycle_sameExcept_of_upcoming next
  | none =>
    obtain ⟨x, -, ran⟩ | ⟨fault, -, -, ran⟩ | ⟨word, -, -, -, ran⟩ |
      ⟨word, instruction, ready, fetched, decoded, -⟩ := machine.cycle_cases
    · rw [ran]
      obtain ⟨key, -, polled⟩ | ⟨-, polled⟩ := machine.poll_cases x
      · rw [polled]
        constructor <;> simp [setRegister]
      · rw [polled]
        exact .refl _ machine
    · rw [ran]
      exact .refl _ machine
    · rw [ran]
      constructor <;> simp [Outcome.done, advanceCounter]
    · rw [upcoming?_of_fetch ready fetched, decoded] at next
      cases next

/-- The signal of an instruction that succeeds. -/
def signalOf (machine : Machine) : Instruction → Signal
  | .clear => .clear
  | .draw _ _ _ => .draw
  | .awaitKey _ => if machine.keypad.firstPressed? = none then .wait else .quiet
  | _ => .quiet

theorem signal_of_perform {machine : Machine} {instruction : Instruction} {signal : Signal}
    (succeeds : (machine.perform instruction).result = .ok signal) :
    signal = machine.signalOf instruction := by
  cases instruction with
  | ret =>
    obtain ⟨address, stack, -, result, -⟩ | ⟨-, failed⟩ := machine.ret_cases
    · cases result.symm.trans succeeds
      rfl
    · rw [perform, failed] at succeeds
      cases succeeds
  | call target =>
    obtain ⟨-, result, -⟩ | ⟨-, failed⟩ := machine.call_cases target
    · cases result.symm.trans succeeds
      rfl
    · rw [perform, failed] at succeeds
      cases succeeds
  | draw x y height =>
    rw [perform, drawSprite_eq] at succeeds
    cases drawn : (machine.drawing x y height.val).1 with
    | ok hit =>
      rw [drawn] at succeeds
      cases succeeds
      rfl
    | error fault =>
      rw [drawn] at succeeds
      cases succeeds
  | skipPressed x =>
    cases (machine.testKey_eq x true).1.symm.trans succeeds
    rfl
  | skipReleased x =>
    cases (machine.testKey_eq x false).1.symm.trans succeeds
    rfl
  | awaitKey x =>
    obtain ⟨key, pressed, stored⟩ | ⟨released, waits⟩ := machine.awaitKey_cases x
    · rw [perform, stored] at succeeds
      cases succeeds
      simp [signalOf, pressed]
    · rw [perform, waits] at succeeds
      cases succeeds
      simp [signalOf, released]
  | decimal x =>
    obtain ⟨memory, -, stored⟩ | ⟨fault, failed⟩ :=
      machine.storeBlock_cases (decimalDigits (machine.register x)) id
    · rw [perform, stored] at succeeds
      cases succeeds
      rfl
    · rw [perform, failed] at succeeds
      cases succeeds
  | store x =>
    obtain ⟨memory, -, stored⟩ | ⟨fault, failed⟩ := machine.storeBlock_cases
      (machine.registers.toList.take (x.val + 1)) (·.advanceIndex (x.val + 1))
    · rw [perform, stored] at succeeds
      cases succeeds
      rfl
    · rw [perform, failed] at succeeds
      cases succeeds
  | fill x =>
    obtain ⟨block, -, filled⟩ | ⟨fault, failed⟩ := machine.fillRegisters_cases x
    · rw [perform, filled] at succeeds
      cases succeeds
      rfl
    · rw [perform, failed] at succeeds
      cases succeeds
  | _ =>
    cases succeeds
    rfl

end Machine

end Chip8
