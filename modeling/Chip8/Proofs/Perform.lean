import Chip8.Machine.Cycle

/-! # How instructions end

One statement for each step that several instructions share or that can end in more than one way,
and one for what such a step logs. What they say is all that later modules know of these steps.
-/

namespace Chip8.Machine

/-- What drawing on the screen comes to, before the flag is written. -/
def drawing (machine : Machine) (x y : Register) (height : Nat) : Except Fault Bool × Screen :=
  machine.screen.drawSprite machine.memory ((machine.register y).toNat % 32)
    ((machine.register x).toNat % 64) machine.index.toNat height

theorem drawSprite_eq (machine : Machine) (x y : Register) (height : Nat) :
    machine.drawSprite x y height =
      { result := (machine.drawing x y height).1.map fun _ => .draw
        machine := { machine with screen := (machine.drawing x y height).2 }.setFlag
          ((machine.drawing x y height).1.toOption.getD false)
        events := [] } := by
  have drawn : machine.screen.drawSprite machine.memory
      ((machine.register y).toNat % Screen.height) ((machine.register x).toNat % Screen.width)
      machine.index.toNat height = machine.drawing x y height := rfl
  unfold drawSprite
  dsimp only
  rw [drawn]
  obtain ⟨hit | fault, screen⟩ := machine.drawing x y height <;> rfl

/-- A number that is no key counts as a key that is up. -/
theorem testKey_eq (machine : Machine) (x : Register) (wanted : Bool) :
    (machine.testKey x wanted).result = .ok .quiet ∧
      (machine.testKey x wanted).machine = machine.follow (.skipWhen
        ((machine.keypad.isPressed? (machine.register x).toNat).getD false == wanted)) := by
  unfold testKey
  dsimp only
  cases machine.keypad.isPressed? (machine.register x).toNat with
  | some down => exact ⟨rfl, rfl⟩
  | none => cases wanted <;> exact ⟨rfl, rfl⟩

theorem awaitKey_cases (machine : Machine) (x : Register) :
    (∃ key, machine.keypad.firstPressed? = some key ∧
      machine.awaitKey x = .done (machine.setRegister x (UInt8.ofNat key.val))) ∨
    (machine.keypad.firstPressed? = none ∧
      machine.awaitKey x =
        { result := .ok .wait, machine := { machine with awaiting := some x },
          events := [.waiting x] }) := by
  unfold awaitKey
  cases machine.keypad.firstPressed? with
  | some key => exact .inl ⟨key, rfl, rfl⟩
  | none => exact .inr ⟨rfl, rfl⟩

/-- A poll ends like the instruction that began the wait, except that it also ends the wait. -/
theorem poll_cases (machine : Machine) (x : Register) :
    (∃ key, machine.keypad.firstPressed? = some key ∧
      machine.poll x =
        { result := .ok .quiet
          machine := { machine.setRegister x (UInt8.ofNat key.val) with awaiting := none }
          events := [.keyStored key x] }) ∨
    (machine.keypad.firstPressed? = none ∧
      machine.poll x =
        { result := .ok .wait, machine := machine, events := [.stillWaiting x] }) := by
  unfold poll
  cases machine.keypad.firstPressed? with
  | some key => exact .inl ⟨key, rfl, rfl⟩
  | none => exact .inr ⟨rfl, rfl⟩

theorem storeBlock_cases (machine : Machine) (block : List UInt8) (advance : Machine → Machine) :
    (∃ memory, machine.memory.writeBlock machine.index.toNat block = .ok memory ∧
      machine.storeBlock block advance = .done (advance { machine with memory := memory })) ∨
    (∃ fault, machine.storeBlock block advance = .failed fault machine) := by
  unfold storeBlock
  obtain ⟨memory, success, left⟩ | ⟨fault, -, left⟩ :=
    machine.memory.putBlock_cases machine.index.toNat block
  · rw [left]
    exact .inl ⟨memory, success, rfl⟩
  · rw [left]
    exact .inr ⟨fault, rfl⟩

theorem fillRegisters_cases (machine : Machine) (x : Register) :
    (∃ block, machine.memory.readBlock machine.index.toNat (x.val + 1) = .ok block ∧
      machine.fillRegisters x = .done
        ({ machine with registers := overwrite machine.registers 0 block }.advanceIndex
          (x.val + 1))) ∨
    (∃ fault, machine.fillRegisters x = .failed fault machine) := by
  unfold fillRegisters
  cases machine.memory.readBlock machine.index.toNat (x.val + 1) with
  | ok block => exact .inl ⟨block, rfl, rfl⟩
  | error fault => exact .inr ⟨fault, rfl⟩

theorem call_cases (machine : Machine) (target : UInt16) :
    (machine.stack.length < 16 ∧
      (machine.call target).result = .ok .quiet ∧
      (machine.call target).machine =
        { machine with counter := target, stack := machine.counter :: machine.stack }) ∨
    (16 ≤ machine.stack.length ∧ machine.call target = .failed .stackOverflow machine) := by
  unfold call
  split
  next room => exact .inl ⟨room, rfl, rfl⟩
  next full => exact .inr ⟨Nat.not_lt.mp full, rfl⟩

theorem ret_cases (machine : Machine) :
    (∃ address stack, machine.stack = address :: stack ∧
      machine.ret.result = .ok .quiet ∧
      machine.ret.machine = { machine with counter := address, stack := stack }) ∨
    (machine.stack = [] ∧ machine.ret = .failed .stackUnderflow machine) := by
  unfold ret
  split
  next empty => exact .inr ⟨empty, rfl⟩
  next address stack stored => exact .inl ⟨address, stack, stored, rfl, rfl⟩

/-- Nothing but `I` moves. -/
theorem advanceIndex_eq (machine : Machine) (count : Nat) :
    machine.advanceIndex count = machine.setIndex (machine.advanceIndex count).index := by
  unfold advanceIndex
  split <;> rfl

/-- An arithmetic instruction works on registers alone. -/
theorem performArithmetic_eq (machine : Machine) (operation : Arithmetic) (x y : Register) :
    machine.performArithmetic operation x y =
      { machine with registers := (machine.performArithmetic operation x y).registers } := by
  unfold performArithmetic
  dsimp only
  generalize operation.compute (machine.register x) (machine.register y) _ = computed
  obtain ⟨result, _ | flag⟩ := computed <;> rfl

end Chip8.Machine
