import Mathlib.Logic.Basic
import Chip8.Proofs.Cycle
import Chip8.Proofs.Footprint

/-! # Where a word takes effect

`Instruction.Writes` and `Machine.Stores` refine the list of parts that an instruction may touch:
they name its registers and its bytes of memory. `Machine.Footprint` puts all of it into a table of
words, and `Machine.footprint_of_execute` says that no word has an effect outside of its entry,
whether it succeeds or not.
-/

namespace Chip8

namespace Word

/-- A word of group 0, which is selected by its low byte. -/
def IsSystem (word : Word) (selector : UInt8) : Prop :=
  word.group = nibble 0x0 ∧ word.nn = selector

/-- A word of group F, which is selected by its low byte. -/
def IsMisc (word : Word) (selector : UInt8) : Prop :=
  word.group = nibble 0xF ∧ word.nn = selector

/-- A word of group 8 that stands for an instruction. -/
def IsArithmetic (word : Word) : Prop :=
  word.group = nibble 0x8 ∧ (word.n.val ≤ 0x7 ∨ word.n.val = 0xE)

/-- A word of group 8 whose result comes with a flag. -/
def IsFlagged (word : Word) : Prop :=
  word.group = nibble 0x8 ∧ (0x4 ≤ word.n.val ∧ word.n.val ≤ 0x7 ∨ word.n.val = 0xE)

end Word

/-- Whether the result comes with a flag. -/
def Arithmetic.isFlagged : Arithmetic → Bool
  | .assign | .or | .and | .xor => false
  | .add | .sub | .shiftRight | .subReverse | .shiftLeft => true

/-- The registers that an instruction may write. -/
def Instruction.Writes : Instruction → Register → Prop
  | .set x _, r | .add x _, r | .random x _, r | .readDelay x, r | .awaitKey x, r => r = x
  | .arithmetic operation x _, r => r = x ∨ operation.isFlagged ∧ r = Machine.flagRegister
  | .draw _ _ _, r | .addIndex _, r => r = Machine.flagRegister
  | .fill x, r => r ≤ x
  | _, _ => False

namespace Machine

variable {machine : Machine} {instruction : Instruction} {word : Word} {r : Register}

/-- The bytes that an instruction may store. -/
def Stores (machine : Machine) : Instruction → Nat → Prop
  | .decimal _, i => machine.index.toNat ≤ i ∧ i ≤ machine.index.toNat + 2
  | .store x, i => machine.index.toNat ≤ i ∧ i ≤ machine.index.toNat + x.val
  | _, _ => False

theorem register_setRegister_of_ne {x : Register} (other : r ≠ x) (value : UInt8) :
    (machine.setRegister x value).register r = machine.register r := by
  rw [register_setRegister, if_neg (Ne.symm other)]

private theorem isSome_compute (operation : Arithmetic) (vx vy source : UInt8) :
    (operation.compute vx vy source).2.isSome = operation.isFlagged := by
  cases operation <;> rfl

/-- What an arithmetic instruction computes. -/
def computed (machine : Machine) (operation : Arithmetic) (x y : Register) :
    UInt8 × Option Bool :=
  operation.compute (machine.register x) (machine.register y)
    (if machine.dialect.shiftInPlace then machine.register x else machine.register y)

/-- All registers after an arithmetic instruction. The flag is written over the result. -/
theorem register_performArithmetic_eq (machine : Machine) (operation : Arithmetic)
    (x y r : Register) :
    (machine.performArithmetic operation x y).register r =
      if operation.isFlagged ∧ r = flagRegister then
        if (machine.computed operation x y).2.getD false then 1 else 0
      else if r = x then (machine.computed operation x y).1
      else machine.register r := by
  have flagged : (machine.computed operation x y).2.isSome = operation.isFlagged :=
    isSome_compute ..
  rw [← flagged]
  unfold performArithmetic computed
  dsimp only
  generalize operation.compute (machine.register x) (machine.register y) _ = computed
  obtain ⟨result, _ | flag⟩ := computed
  · simp [register_setRegister, eq_comm]
  · simp [setFlag, register_setRegister, eq_comm]

private theorem register_performArithmetic {operation : Arithmetic} {x : Register} (y : Register)
    (other : r ≠ x) (unflagged : ¬ (operation.isFlagged ∧ r = flagRegister)) :
    (machine.performArithmetic operation x y).register r = machine.register r := by
  rw [register_performArithmetic_eq, if_neg unflagged, if_neg other]

theorem register_overwrite_of_length_le {block : List UInt8} (beyond : block.length ≤ r.val) :
    ({ machine with registers := overwrite machine.registers 0 block } : Machine).register r =
      machine.register r := by
  have missing : block[r.val - 0]? = none := List.getElem?_eq_none (by omega)
  rw [register_eq_getElem, register_eq_getElem, getElem_overwrite, if_pos (Nat.zero_le _), missing]
  rfl

theorem length_readBlock {memory : Memory} {address count : Nat} {block : List UInt8}
    (success : memory.readBlock address count = .ok block) : block.length = count := by
  unfold Memory.readBlock Memory.size at success
  split at success
  next inside =>
    cases success
    rw [Array.length_toList, Array.size_extract, Vector.size_toArray]
    omega
  next => cases success

/-- No instruction writes a register that it is not listed to write. -/
theorem register_perform (machine : Machine) (unwritten : ¬ instruction.Writes r) :
    (machine.perform instruction).machine.register r = machine.register r := by
  by_cases touched : .registers ∈ instruction.touches
  · cases instruction with
    | set x value | add x value | random x mask | readDelay x =>
      exact register_setRegister_of_ne unwritten _
    | arithmetic operation x y =>
      obtain ⟨other, unflagged⟩ := not_or.mp unwritten
      exact register_performArithmetic y other unflagged
    | draw x y height =>
      rw [perform, drawSprite_eq]
      exact register_setRegister_of_ne unwritten _
    | addIndex x => exact register_setRegister_of_ne unwritten _
    | awaitKey x =>
      obtain ⟨key, -, stored⟩ | ⟨-, waits⟩ := machine.awaitKey_cases x
      · rw [perform, stored]
        exact register_setRegister_of_ne unwritten _
      · rw [perform, waits]
        rfl
    | fill x =>
      obtain ⟨block, read, filled⟩ | ⟨fault, failed⟩ := machine.fillRegisters_cases x
      · have behind : x.val < r.val := Fin.not_le.mp unwritten
        have short : block.length ≤ r.val := by
          rw [length_readBlock read]
          omega
        rw [perform, filled, advanceIndex_eq]
        exact register_overwrite_of_length_le short
      · rw [perform, failed]
        rfl
    | _ => simp [Instruction.touches] at touched
  · have same := (machine.perform_sameExcept instruction).registers touched
    rw [register, register, same]

theorem getElem_writeBlock_of_outside {memory written : Memory} {address i : Nat}
    {block : List UInt8} (inside : i < 4096)
    (success : memory.writeBlock address block = .ok written)
    (outside : ¬ (address ≤ i ∧ i < address + block.length)) :
    written.bytes[i] = memory.bytes[i] := by
  rw [Memory.getElem_writeBlock success i inside]
  by_cases before : address ≤ i
  · have missing : block[i - address]? = none := List.getElem?_eq_none (by omega)
    rw [if_pos before, missing]
    rfl
  · rw [if_neg before]

/-- No instruction stores a byte that it is not listed to store. -/
theorem getElem_perform (machine : Machine) {i : Nat} (inside : i < 4096)
    (unstored : ¬ machine.Stores instruction i) :
    (machine.perform instruction).machine.memory.bytes[i] = machine.memory.bytes[i] := by
  by_cases touched : .memory ∈ instruction.touches
  · cases instruction with
    | decimal x =>
      obtain ⟨memory, written, stored⟩ | ⟨fault, failed⟩ :=
        machine.storeBlock_cases (decimalDigits (machine.register x)) id
      · rw [perform, stored]
        apply getElem_writeBlock_of_outside inside written
        rintro ⟨after, before⟩
        apply unstored
        have size : (decimalDigits (machine.register x)).length = 3 := rfl
        exact ⟨after, by omega⟩
      · rw [perform, failed]
        rfl
    | store x =>
      obtain ⟨memory, written, stored⟩ | ⟨fault, failed⟩ := machine.storeBlock_cases
        (machine.registers.toList.take (x.val + 1)) (·.advanceIndex (x.val + 1))
      · rw [perform, stored, advanceIndex_eq]
        apply getElem_writeBlock_of_outside inside written
        rintro ⟨after, before⟩
        apply unstored
        rw [List.length_take] at before
        exact ⟨after, by omega⟩
      · rw [perform, failed]
        rfl
    | _ => simp [Instruction.touches] at touched
  · have same := (machine.perform_sameExcept instruction).memory touched
    simp only [same]

/-- Whether an instruction may move `I`. Storing and filling registers does so only in some
dialects, and only if it succeeds. -/
def MovesIndex (machine : Machine) (instruction : Instruction) : Prop :=
  match instruction with
  | .setIndex _ | .addIndex _ | .glyph _ => True
  | .store _ | .fill _ =>
    machine.dialect.advanceIndex = true ∧ (machine.perform instruction).result.isOk
  | _ => False

private theorem index_advanceIndex_of_fixed (machine : Machine) (count : Nat)
    (fixed : machine.dialect.advanceIndex = false) :
    (machine.advanceIndex count).index = machine.index := by
  rw [advanceIndex, fixed]
  rfl

private theorem movesIndex_of_ne
    (moved : (machine.perform instruction).machine.index ≠ machine.index) :
    machine.MovesIndex instruction := by
  by_cases touched : .index ∈ instruction.touches
  · cases instruction with
    | setIndex | addIndex | glyph => trivial
    | store x =>
      unfold MovesIndex
      obtain ⟨memory, -, stored⟩ | ⟨fault, failed⟩ := machine.storeBlock_cases
        (machine.registers.toList.take (x.val + 1)) (·.advanceIndex (x.val + 1))
      · rw [perform, stored] at moved ⊢
        cases advancing : machine.dialect.advanceIndex with
        | true => exact ⟨rfl, rfl⟩
        | false =>
          have fixed := index_advanceIndex_of_fixed { machine with memory := memory }
            (x.val + 1) advancing
          exact absurd fixed moved
      · rw [perform, failed] at moved
        exact absurd rfl moved
    | fill x =>
      unfold MovesIndex
      obtain ⟨block, -, filled⟩ | ⟨fault, failed⟩ := machine.fillRegisters_cases x
      · rw [perform, filled] at moved ⊢
        cases advancing : machine.dialect.advanceIndex with
        | true => exact ⟨rfl, rfl⟩
        | false =>
          have fixed := index_advanceIndex_of_fixed
            { machine with registers := overwrite machine.registers 0 block } (x.val + 1) advancing
          exact absurd fixed moved
      · rw [perform, failed] at moved
        exact absurd rfl moved
    | _ => simp [Instruction.touches] at touched
  · exact absurd ((machine.perform_sameExcept instruction).index touched) moved

/-- Whether no key is down. -/
def NoKey (machine : Machine) : Prop := ∀ key : Key, machine.keypad.keys.get key = false

/-- The effects that a word may have on a machine, part by part; the counter is not one of them.
Every change is put down to the words that may cause it, and every signal to the words that give
it. -/
structure Footprint (machine : Machine) (word : Word) (outcome : Outcome) : Prop where
  memory : ∀ (i : Nat) (inside : i < 4096),
    outcome.machine.memory.bytes[i] ≠ machine.memory.bytes[i] →
      word.IsMisc 0x33 ∧ machine.index.toNat ≤ i ∧ i ≤ machine.index.toNat + 2 ∨
        word.IsMisc 0x55 ∧ machine.index.toNat ≤ i ∧ i ≤ machine.index.toNat + word.x.val
  screen : outcome.machine.screen ≠ machine.screen →
    word.IsSystem 0xE0 ∨ word.group = nibble 0xD
  stack : outcome.machine.stack ≠ machine.stack →
    word.group = nibble 0x2 ∨ word.IsSystem 0xEE
  index : outcome.machine.index ≠ machine.index →
    word.group = nibble 0xA ∨ word.IsMisc 0x1E ∨ word.IsMisc 0x29 ∨
      (word.IsMisc 0x55 ∨ word.IsMisc 0x65) ∧
        machine.dialect.advanceIndex = true ∧ outcome.result.isOk
  delay : outcome.machine.delay ≠ machine.delay → word.IsMisc 0x15
  sound : outcome.machine.sound ≠ machine.sound → word.IsMisc 0x18
  random : outcome.machine.random ≠ machine.random → word.group = nibble 0xC
  awaiting : outcome.machine.awaiting ≠ machine.awaiting →
    word.IsMisc 0x0A ∧ outcome.machine.awaiting = some word.x
  keypad : outcome.machine.keypad = machine.keypad
  dialect : outcome.machine.dialect = machine.dialect
  registers : ∀ r, outcome.machine.register r ≠ machine.register r →
    r = word.x ∧ (word.group = nibble 0x6 ∨ word.group = nibble 0x7 ∨ word.IsArithmetic ∨
        word.group = nibble 0xC ∨ word.IsMisc 0x07 ∨ word.IsMisc 0x0A) ∨
      r ≤ word.x ∧ word.IsMisc 0x65 ∨
      r = flagRegister ∧ (word.IsFlagged ∨ word.group = nibble 0xD ∨ word.IsMisc 0x1E)
  clear : outcome.result = .ok .clear ↔ word.IsSystem 0xE0
  draw : outcome.result = .ok .draw ↔ word.group = nibble 0xD ∧ outcome.result.isOk
  wait : outcome.result = .ok .wait ↔ word.IsMisc 0x0A ∧ machine.NoKey
  quiet : outcome.result = .ok .quiet ↔ outcome.result.isOk ∧
    ¬ word.IsSystem 0xE0 ∧ word.group ≠ nibble 0xD ∧ ¬ (word.IsMisc 0x0A ∧ machine.NoKey)

private theorem eq_of_encodes {first second : Instruction} (encodesFirst : word.Encodes first)
    (encodesSecond : word.Encodes second) : first = second := by
  have decoded := (Instruction.ofWord?_eq_some_iff word first).mpr encodesFirst
  have again := (Instruction.ofWord?_eq_some_iff word second).mpr encodesSecond
  exact Option.some.inj (decoded.symm.trans again)

private theorem isArithmetic_of_selector {operation : Arithmetic} (group : word.group = nibble 0x8)
    (selected : word.n = operation.selector) : word.IsArithmetic := by
  refine ⟨group, ?_⟩
  rw [selected]
  cases operation <;> decide

private theorem isFlagged_of_selector {operation : Arithmetic} (group : word.group = nibble 0x8)
    (selected : word.n = operation.selector) (flagged : operation.isFlagged) :
    word.IsFlagged := by
  refine ⟨group, ?_⟩
  rw [selected]
  cases operation with
  | assign | or | and | xor => cases flagged
  | _ => decide

private theorem registers_of_encodes (encodes : word.Encodes instruction)
    (writes : instruction.Writes r) :
    r = word.x ∧ (word.group = nibble 0x6 ∨ word.group = nibble 0x7 ∨ word.IsArithmetic ∨
        word.group = nibble 0xC ∨ word.IsMisc 0x07 ∨ word.IsMisc 0x0A) ∨
      r ≤ word.x ∧ word.IsMisc 0x65 ∨
      r = flagRegister ∧ (word.IsFlagged ∨ word.group = nibble 0xD ∨ word.IsMisc 0x1E) := by
  cases instruction with
  | set x value =>
    obtain ⟨group, rfl, -⟩ := encodes
    exact .inl ⟨writes, .inl group⟩
  | add x value =>
    obtain ⟨group, rfl, -⟩ := encodes
    exact .inl ⟨writes, .inr (.inl group)⟩
  | arithmetic operation x y =>
    obtain ⟨group, selected, rfl, -⟩ := encodes
    obtain target | ⟨flagged, flag⟩ := writes
    · exact .inl ⟨target, .inr (.inr (.inl (isArithmetic_of_selector group selected)))⟩
    · exact .inr (.inr ⟨flag, .inl (isFlagged_of_selector group selected flagged)⟩)
  | random x mask =>
    obtain ⟨group, rfl, -⟩ := encodes
    exact .inl ⟨writes, .inr (.inr (.inr (.inl group)))⟩
  | readDelay x =>
    obtain ⟨group, selector, rfl⟩ := encodes
    exact .inl ⟨writes, .inr (.inr (.inr (.inr (.inl ⟨group, selector⟩))))⟩
  | awaitKey x =>
    obtain ⟨group, selector, rfl⟩ := encodes
    exact .inl ⟨writes, .inr (.inr (.inr (.inr (.inr ⟨group, selector⟩))))⟩
  | fill x =>
    obtain ⟨group, selector, rfl⟩ := encodes
    exact .inr (.inl ⟨writes, group, selector⟩)
  | draw x y height => exact .inr (.inr ⟨writes, .inr (.inl encodes.1)⟩)
  | addIndex x => exact .inr (.inr ⟨writes, .inr (.inr ⟨encodes.1, encodes.2.1⟩)⟩)
  | _ => cases writes

private theorem memory_of_encodes {i : Nat} (encodes : word.Encodes instruction)
    (stores : machine.Stores instruction i) :
    word.IsMisc 0x33 ∧ machine.index.toNat ≤ i ∧ i ≤ machine.index.toNat + 2 ∨
      word.IsMisc 0x55 ∧ machine.index.toNat ≤ i ∧ i ≤ machine.index.toNat + word.x.val := by
  cases instruction with
  | decimal x => exact .inl ⟨⟨encodes.1, encodes.2.1⟩, stores⟩
  | store x =>
    obtain ⟨group, selector, rfl⟩ := encodes
    exact .inr ⟨⟨group, selector⟩, stores⟩
  | _ => cases stores

private theorem index_of_encodes (encodes : word.Encodes instruction)
    (moves : machine.MovesIndex instruction) :
    word.group = nibble 0xA ∨ word.IsMisc 0x1E ∨ word.IsMisc 0x29 ∨
      (word.IsMisc 0x55 ∨ word.IsMisc 0x65) ∧
        machine.dialect.advanceIndex = true ∧ (machine.perform instruction).result.isOk := by
  cases instruction with
  | setIndex target => exact .inl encodes.1
  | addIndex x => exact .inr (.inl ⟨encodes.1, encodes.2.1⟩)
  | glyph x => exact .inr (.inr (.inl ⟨encodes.1, encodes.2.1⟩))
  | store x => exact .inr (.inr (.inr ⟨.inl ⟨encodes.1, encodes.2.1⟩, moves⟩))
  | fill x => exact .inr (.inr (.inr ⟨.inr ⟨encodes.1, encodes.2.1⟩, moves⟩))
  | _ => cases moves

private theorem perform_eq_ok_iff {signal : Signal} :
    (machine.perform instruction).result = .ok signal ↔
      (machine.perform instruction).result.isOk ∧ machine.signalOf instruction = signal := by
  constructor
  · intro succeeds
    exact ⟨by rw [succeeds]; rfl, (signal_of_perform succeeds).symm⟩
  · rintro ⟨succeeds, rfl⟩
    cases ended : (machine.perform instruction).result with
    | ok signal => rw [signal_of_perform ended]
    | error fault =>
      rw [ended] at succeeds
      cases succeeds

private theorem signalOf_eq_clear_iff :
    machine.signalOf instruction = .clear ↔ instruction = .clear := by
  cases instruction with
  | awaitKey x =>
    unfold signalOf
    dsimp only
    split <;> simp
  | _ => simp [signalOf]

private theorem signalOf_eq_draw_iff :
    machine.signalOf instruction = .draw ↔ ∃ x y height, instruction = .draw x y height := by
  cases instruction with
  | awaitKey x =>
    unfold signalOf
    dsimp only
    split <;> simp
  | _ => simp [signalOf]

private theorem signalOf_eq_wait_iff : machine.signalOf instruction = .wait ↔
    (∃ x, instruction = .awaitKey x) ∧ machine.NoKey := by
  rw [NoKey, ← Keypad.firstPressed?_eq_none_iff]
  cases instruction <;> simp [signalOf]

private theorem isOk_perform_clear : (machine.perform .clear).result.isOk := rfl

private theorem isOk_perform_awaitKey (x : Register) :
    (machine.perform (.awaitKey x)).result.isOk := by
  obtain ⟨key, -, stored⟩ | ⟨-, waits⟩ := machine.awaitKey_cases x
  · rw [perform, stored]
    rfl
  · rw [perform, waits]
    rfl

private theorem clear_iff_of_encodes (encodes : word.Encodes instruction) :
    (machine.perform instruction).result = .ok .clear ↔ word.IsSystem 0xE0 := by
  rw [perform_eq_ok_iff, signalOf_eq_clear_iff]
  constructor
  · rintro ⟨-, rfl⟩
    exact encodes
  · intro system
    obtain rfl : instruction = .clear := eq_of_encodes encodes system
    exact ⟨isOk_perform_clear, rfl⟩

private theorem draw_iff_of_encodes (encodes : word.Encodes instruction) :
    (machine.perform instruction).result = .ok .draw ↔
      word.group = nibble 0xD ∧ (machine.perform instruction).result.isOk := by
  rw [perform_eq_ok_iff, signalOf_eq_draw_iff]
  constructor
  · rintro ⟨succeeds, x, y, height, rfl⟩
    exact ⟨encodes.1, succeeds⟩
  · rintro ⟨group, succeeds⟩
    have draws : word.Encodes (.draw word.x word.y word.n) := ⟨group, rfl, rfl, rfl⟩
    exact ⟨succeeds, _, _, _, eq_of_encodes encodes draws⟩

private theorem wait_iff_of_encodes (encodes : word.Encodes instruction) :
    (machine.perform instruction).result = .ok .wait ↔ word.IsMisc 0x0A ∧ machine.NoKey := by
  rw [perform_eq_ok_iff, signalOf_eq_wait_iff]
  constructor
  · rintro ⟨-, ⟨x, rfl⟩, up⟩
    exact ⟨⟨encodes.1, encodes.2.1⟩, up⟩
  · rintro ⟨⟨group, selector⟩, up⟩
    have awaits : word.Encodes (.awaitKey word.x) := ⟨group, selector, rfl⟩
    obtain rfl := eq_of_encodes encodes awaits
    exact ⟨isOk_perform_awaitKey _, ⟨_, rfl⟩, up⟩

/-- The signals exclude each other, and a success gives one of them. -/
theorem quiet_iff_of_signals {outcome : Outcome} {clears draws waits : Prop}
    (clear : outcome.result = .ok .clear ↔ clears)
    (draw : outcome.result = .ok .draw ↔ draws ∧ outcome.result.isOk)
    (wait : outcome.result = .ok .wait ↔ waits) :
    outcome.result = .ok .quiet ↔ outcome.result.isOk ∧ ¬ clears ∧ ¬ draws ∧ ¬ waits := by
  rw [← clear, ← wait]
  cases ended : outcome.result with
  | error fault => simp [Except.isOk, Except.toBool]
  | ok signal =>
    rw [ended] at draw
    have drawn : draws ↔ signal = .draw := by simpa [Except.isOk, Except.toBool] using draw.symm
    rw [drawn]
    cases signal <;> simp [Except.isOk, Except.toBool]

private theorem screen_of_encodes (encodes : word.Encodes instruction)
    (touched : .screen ∈ instruction.touches) :
    word.IsSystem 0xE0 ∨ word.group = nibble 0xD := by
  cases instruction with
  | clear => exact .inl encodes
  | draw x y height => exact .inr encodes.1
  | _ => simp [Instruction.touches] at touched

private theorem stack_of_encodes (encodes : word.Encodes instruction)
    (touched : .stack ∈ instruction.touches) :
    word.group = nibble 0x2 ∨ word.IsSystem 0xEE := by
  cases instruction with
  | call target => exact .inl encodes.1
  | ret => exact .inr encodes
  | _ => simp [Instruction.touches] at touched

private theorem delay_of_encodes (encodes : word.Encodes instruction)
    (touched : .delay ∈ instruction.touches) : word.IsMisc 0x15 := by
  cases instruction with
  | setDelay x => exact ⟨encodes.1, encodes.2.1⟩
  | _ => simp [Instruction.touches] at touched

private theorem sound_of_encodes (encodes : word.Encodes instruction)
    (touched : .sound ∈ instruction.touches) : word.IsMisc 0x18 := by
  cases instruction with
  | setSound x => exact ⟨encodes.1, encodes.2.1⟩
  | _ => simp [Instruction.touches] at touched

private theorem random_of_encodes (encodes : word.Encodes instruction)
    (touched : .random ∈ instruction.touches) : word.group = nibble 0xC := by
  cases instruction with
  | random x mask => exact encodes.1
  | _ => simp [Instruction.touches] at touched

/-- The instruction that waits for a key can begin a wait, and no instruction ends one. -/
theorem awaiting_of_encodes (encodes : word.Encodes instruction)
    (changed : (machine.perform instruction).machine.awaiting ≠ machine.awaiting) :
    word.IsMisc 0x0A ∧ (machine.perform instruction).machine.awaiting = some word.x := by
  have touched : .awaiting ∈ instruction.touches :=
    not_imp_comm.mp (machine.perform_sameExcept instruction).awaiting changed
  cases instruction with
  | awaitKey x =>
    obtain ⟨group, selector, rfl⟩ := encodes
    refine ⟨⟨group, selector⟩, ?_⟩
    obtain ⟨key, -, stored⟩ | ⟨-, waits⟩ := machine.awaitKey_cases word.x
    · rw [perform, stored] at changed
      exact absurd rfl changed
    · rw [perform, waits]
  | _ => simp [Instruction.touches] at touched

private theorem footprint_of_perform (encodes : word.Encodes instruction) {outcome : Outcome}
    (result : outcome.result = (machine.perform instruction).result)
    (left : outcome.machine = (machine.perform instruction).machine) :
    machine.Footprint word outcome := by
  have same := machine.perform_sameExcept instruction
  have clear : outcome.result = .ok .clear ↔ word.IsSystem 0xE0 := by
    rw [result, clear_iff_of_encodes encodes]
  have draw : outcome.result = .ok .draw ↔ word.group = nibble 0xD ∧ outcome.result.isOk := by
    rw [result, draw_iff_of_encodes encodes]
  have wait : outcome.result = .ok .wait ↔ word.IsMisc 0x0A ∧ machine.NoKey := by
    rw [result, wait_iff_of_encodes encodes]
  constructor
  case clear | draw | wait => assumption
  case quiet => exact quiet_iff_of_signals clear draw wait
  all_goals rw [left]
  case keypad => exact same.keypad
  case dialect => exact same.dialect
  case screen =>
    intro changed
    exact screen_of_encodes encodes (not_imp_comm.mp same.screen changed)
  case stack =>
    intro changed
    exact stack_of_encodes encodes (not_imp_comm.mp same.stack changed)
  case delay =>
    intro changed
    exact delay_of_encodes encodes (not_imp_comm.mp same.delay changed)
  case sound =>
    intro changed
    exact sound_of_encodes encodes (not_imp_comm.mp same.sound changed)
  case random =>
    intro changed
    exact random_of_encodes encodes (not_imp_comm.mp same.random changed)
  case awaiting => exact awaiting_of_encodes encodes
  case index =>
    intro moved
    rw [result]
    exact index_of_encodes encodes (movesIndex_of_ne moved)
  case memory =>
    intro i inside changed
    apply memory_of_encodes encodes
    exact not_imp_comm.mp (machine.getElem_perform inside) changed
  case registers =>
    intro r changed
    apply registers_of_encodes encodes
    exact not_imp_comm.mp machine.register_perform changed

/-- A word outside of the language has no entry in the table, and it has no effect. -/
theorem footprint_of_unknown (unknown : ∀ instruction, ¬ word.Encodes instruction)
    {outcome : Outcome} (result : outcome.result = .ok .quiet)
    (left : outcome.machine = machine) : machine.Footprint word outcome := by
  have clears : ¬ word.IsSystem 0xE0 := unknown .clear
  have draws : word.group ≠ nibble 0xD := fun group =>
    unknown (.draw word.x word.y word.n) ⟨group, rfl, rfl, rfl⟩
  have waits : ¬ word.IsMisc 0x0A := fun misc => unknown (.awaitKey word.x) ⟨misc.1, misc.2, rfl⟩
  constructor
  case clear | draw | wait | quiet =>
    simp [result, clears, draws, waits, Except.isOk, Except.toBool]
  all_goals simp [left]

theorem footprint_of_execute (machine : Machine) (word : Word) :
    machine.Footprint word (machine.execute word) := by
  cases decoded : Instruction.ofWord? word with
  | some instruction =>
    have encodes := (Instruction.ofWord?_eq_some_iff word instruction).mp decoded
    rw [machine.execute_of_encodes encodes]
    exact footprint_of_perform encodes rfl rfl
  | none =>
    have unknown : ∀ instruction, ¬ word.Encodes instruction := by
      intro instruction encodes
      have known := (Instruction.ofWord?_eq_some_iff word instruction).mpr encodes
      cases decoded.symm.trans known
    rw [machine.execute_of_unknown decoded]
    exact footprint_of_unknown unknown rfl rfl

/-- Moving the counter does not widen the effects of a word. -/
theorem footprint_of_advanceCounter {outcome : Outcome}
    (footprint : machine.advanceCounter.Footprint word outcome) :
    machine.Footprint word outcome := by
  obtain ⟨memory, screen, stack, index, delay, sound, random, awaiting, keypad, dialect, registers,
    clear, draw, wait, quiet⟩ := footprint
  exact ⟨memory, screen, stack, index, delay, sound, random, awaiting, keypad, dialect, registers,
    clear, draw, wait, quiet⟩

private theorem poll_of_noKey (x : Register) (up : machine.NoKey) :
    (machine.poll x).result = .ok .wait ∧ (machine.poll x).machine = machine := by
  have released := (Keypad.firstPressed?_eq_none_iff machine.keypad).mpr up
  obtain ⟨key, pressed, -⟩ | ⟨-, polled⟩ := machine.poll_cases x
  · cases released.symm.trans pressed
  · rw [polled]
    exact ⟨rfl, rfl⟩

private theorem poll_of_lowest (x : Register) {key : Key}
    (down : machine.keypad.keys.get key = true)
    (below : ∀ lower < key, machine.keypad.keys.get lower = false) :
    (machine.poll x).result = .ok .quiet ∧
      (machine.poll x).machine =
        { machine.setRegister x (UInt8.ofNat key.val) with awaiting := none } := by
  have lowest := (Keypad.firstPressed?_eq_some_iff machine.keypad key).mpr ⟨down, below⟩
  obtain ⟨found, pressed, polled⟩ | ⟨released, -⟩ := machine.poll_cases x
  · cases lowest.symm.trans pressed
    rw [polled]
    exact ⟨rfl, rfl⟩
  · cases lowest.symm.trans released

private theorem poll_eq_wait_iff (x : Register) :
    (machine.poll x).result = .ok .wait ↔ machine.NoKey := by
  constructor
  · intro waits
    obtain ⟨key, -, polled⟩ | ⟨released, -⟩ := machine.poll_cases x
    · rw [polled] at waits
      cases waits
    · exact (Keypad.firstPressed?_eq_none_iff _).mp released
  · intro up
    exact (poll_of_noKey x up).1

private theorem cycle_eq_wait_iff (ready : machine.awaiting = none) :
    machine.cycle.result = .ok .wait ↔
      (∃ word, machine.PointsTo word ∧ word.IsMisc 0x0A) ∧ machine.NoKey := by
  constructor
  · intro waits
    cases fetched : machine.fetch with
    | error fault =>
      rw [cycle_of_fetchFails ready (fetch_eq_error_iff.mp fetched)] at waits
      cases waits
    | ok word =>
      obtain ⟨points, filled⟩ := fetch_eq_ok_iff.mp fetched
      rw [cycle_of_pointsTo ready points filled] at waits
      obtain ⟨misc, up⟩ := (footprint_of_execute _ word).wait.mp waits
      exact ⟨⟨word, points, misc⟩, up⟩
  · rintro ⟨⟨word, points, group, selector⟩, up⟩
    have encodes : word.Encodes (.awaitKey word.x) := ⟨group, selector, rfl⟩
    rw [cycle_of_pointsTo ready points (ne_zero_of_encodes encodes)]
    exact (footprint_of_execute _ word).wait.mpr ⟨⟨group, selector⟩, up⟩

/-- The effects of a cycle. Whatever word is executed, on whatever machine, every change is in its
entry of the table and the signal is the one of its entry. A cycle executes the word at the counter
or, if there is none, changes nothing. While a wait is pending a cycle executes no word: without a
key it waits and changes nothing, and with one it stores the lowest key and ends the wait, which
nothing else does. -/
theorem effects_of_cycle (machine : Machine) :
    (∀ word, machine.Footprint word (machine.execute word)) ∧
      (machine.awaiting = none →
        (∀ word, machine.PointsTo word → word ≠ 0 → machine.Footprint word machine.cycle) ∧
        (∀ fault, machine.FetchFails fault →
          machine.cycle.result = .error fault ∧ machine.cycle.machine = machine) ∧
        (machine.cycle.result = .ok .wait ↔
          (∃ word, machine.PointsTo word ∧ word.IsMisc 0x0A) ∧ machine.NoKey)) ∧
      ∀ x, machine.awaiting = some x →
        (machine.NoKey → machine.cycle.machine = machine) ∧
        (∀ key, machine.keypad.keys.get key = true →
          (∀ lower < key, machine.keypad.keys.get lower = false) →
          machine.cycle.result = .ok .quiet ∧
            machine.cycle.machine =
              { machine.setRegister x (UInt8.ofNat key.val) with awaiting := none }) ∧
        (machine.cycle.result = .ok .wait ↔ machine.NoKey) := by
  refine ⟨machine.footprint_of_execute, ?_, ?_⟩
  · intro ready
    refine ⟨?_, ?_, cycle_eq_wait_iff ready⟩
    · intro word points filled
      rw [cycle_of_pointsTo ready points filled]
      exact footprint_of_advanceCounter (footprint_of_execute _ word)
    · intro fault failed
      have unfetched := fetch_eq_error_iff.mpr failed
      simp only [cycle, ready, unfetched, Outcome.failed, and_self]
  · intro x waiting
    rw [cycle_of_awaiting waiting]
    refine ⟨?_, ?_, poll_eq_wait_iff x⟩
    · intro up
      exact (poll_of_noKey x up).2
    · intro key down below
      exact poll_of_lowest x down below

end Machine

end Chip8
