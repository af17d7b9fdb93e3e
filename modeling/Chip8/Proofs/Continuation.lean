import Chip8.Proofs.Effects

/-! # Where a cycle goes on

`Machine.flowOf` says how each instruction moves the counter on, and `Machine.GoesOnAt` puts it into
a table of words, in which addresses are numbers and nothing wraps around.
`Machine.counter_of_next_cycle` says that cycles keep to the table and that of two opposite tests
exactly one passes over the following instruction.
-/

namespace Chip8

/-- Whether the number is the one of a key that is down. -/
def Keypad.IsDown (keypad : Keypad) (number : Nat) : Prop :=
  ∃ key : Key, key.val = number ∧ keypad.keys.get key = true

private theorem Keypad.isDown_iff (keypad : Keypad) (number : Nat) :
    keypad.IsDown number ↔ (keypad.isPressed? number).getD false = true := by
  unfold IsDown isPressed?
  constructor
  · rintro ⟨key, rfl, down⟩
    rw [Vector.getElem?_eq_getElem key.isLt]
    exact down
  · intro down
    by_cases inside : number < 16
    · rw [Vector.getElem?_eq_getElem inside] at down
      exact ⟨⟨number, inside⟩, rfl, down⟩
    · rw [Vector.getElem?_eq_none (Nat.le_of_not_lt inside)] at down
      cases down

private theorem Flow.skipWhen_eq_skip_iff {condition : Bool} :
    Flow.skipWhen condition = .skip ↔ condition = true := by
  cases condition <;> simp [Flow.skipWhen]

private theorem Flow.skipWhen_eq_next {condition : Bool} (stays : Flow.skipWhen condition ≠ .skip) :
    Flow.skipWhen condition = .next := by
  cases condition with
  | true => exact absurd rfl stays
  | false => rfl

/-- Whether an instruction tests a condition and skips on it. -/
def Instruction.isTest : Instruction → Bool
  | .skipEqual _ _ | .skipNotEqual _ _ | .skipSame _ _ | .skipDifferent _ _ => true
  | .skipPressed _ | .skipReleased _ => true
  | _ => false

/-- The two words test the same, once for it and once against it. -/
inductive Word.Opposes (v w : Word) : Prop
  | constant (equal : v.group = nibble 0x3) (notEqual : w.group = nibble 0x4)
      (x : w.x = v.x) (value : w.nn = v.nn)
  | register (same : v.group = nibble 0x5) (different : w.group = nibble 0x9)
      (x : w.x = v.x) (y : w.y = v.y)
  | key (pressed : v.group = nibble 0xE ∧ v.nn = 0x9E)
      (released : w.group = nibble 0xE ∧ w.nn = 0xA1) (x : w.x = v.x)

namespace Machine

variable {machine other : Machine} {instruction : Instruction} {v w word : Word}

/-- Whether the key `VX` is down. A number past the last key counts as a key that is up. -/
def keyIsDown (machine : Machine) (x : Register) : Bool :=
  (machine.keypad.isPressed? (machine.register x).toNat).getD false

/-- How an instruction that succeeds moves the counter on. -/
def flowOf (machine : Machine) : Instruction → Flow
  | .ret =>
    match machine.stack with
    | [] => .next
    | address :: _ => .jump address
  | .jump target | .call target => .jump target
  | .skipEqual x value => .skipWhen (machine.register x == value)
  | .skipNotEqual x value => .skipWhen (machine.register x != value)
  | .skipSame x y => .skipWhen (machine.register x == machine.register y)
  | .skipDifferent x y => .skipWhen (machine.register x != machine.register y)
  | .jumpOffset x target =>
    let offset := machine.register (if machine.dialect.offsetByX then x else nibble 0)
    .jump (target + offset.toUInt16)
  | .skipPressed x => .skipWhen (machine.keyIsDown x)
  | .skipReleased x => .skipWhen (!machine.keyIsDown x)
  | _ => .next

private theorem counter_storeBlock (block : List UInt8) {advance : Machine → Machine}
    (still : ∀ stored, (advance stored).counter = stored.counter) :
    (machine.storeBlock block advance).machine.counter = machine.counter := by
  obtain ⟨memory, -, stored⟩ | ⟨fault, failed⟩ := machine.storeBlock_cases block advance
  · rw [stored]
    exact still _
  · rw [failed]
    rfl

private theorem counter_of_perform (succeeds : (machine.perform instruction).result.isOk) :
    (machine.perform instruction).machine.counter =
      (machine.flowOf instruction).apply machine.counter := by
  cases instruction with
  | ret =>
    obtain ⟨address, stack, stored, -, left⟩ | ⟨-, failed⟩ := machine.ret_cases
    · rw [perform, left, flowOf, stored]
      rfl
    · rw [perform, failed] at succeeds
      cases succeeds
  | call target =>
    obtain ⟨-, -, left⟩ | ⟨-, failed⟩ := machine.call_cases target
    · rw [perform, left]
      rfl
    · rw [perform, failed] at succeeds
      cases succeeds
  | arithmetic operation x y =>
    rw [perform, performArithmetic_eq]
    rfl
  | draw x y height =>
    rw [perform, drawSprite_eq]
    rfl
  | skipPressed x =>
    rw [perform, (machine.testKey_eq x true).2, beq_true]
    rfl
  | skipReleased x =>
    rw [perform, (machine.testKey_eq x false).2, beq_false]
    rfl
  | awaitKey x =>
    obtain ⟨key, -, stored⟩ | ⟨-, waits⟩ := machine.awaitKey_cases x
    · rw [perform, stored]
      rfl
    · rw [perform, waits]
      rfl
  | decimal x => exact counter_storeBlock _ fun _ => rfl
  | store x =>
    apply counter_storeBlock
    intro stored
    rw [advanceIndex_eq]
    rfl
  | fill x =>
    obtain ⟨block, -, filled⟩ | ⟨fault, failed⟩ := machine.fillRegisters_cases x
    · rw [perform, filled, advanceIndex_eq]
      rfl
    · rw [perform, failed]
      rfl
  | _ => rfl

/-- The flow depends on these parts of a machine alone. -/
theorem flowOf_congr (registers : other.registers = machine.registers)
    (stack : other.stack = machine.stack) (keypad : other.keypad = machine.keypad)
    (dialect : other.dialect = machine.dialect) (instruction : Instruction) :
    other.flowOf instruction = machine.flowOf instruction := by
  have same (x : Register) : other.register x = machine.register x := by
    rw [register, register, registers]
  cases instruction <;> simp only [flowOf, keyIsDown, same, stack, keypad, dialect]

/-- How a word that is executed and succeeds moves the counter on. -/
def flowAt (machine : Machine) (word : Word) : Flow :=
  ((Instruction.ofWord? word).map machine.flowOf).getD .next

private theorem flowAt_of_encodes (encodes : word.Encodes instruction) :
    machine.flowAt word = machine.flowOf instruction := by
  rw [flowAt, (Instruction.ofWord?_eq_some_iff word instruction).mpr encodes]
  rfl

/-- The words that pass over the following instruction, with the conditions under which they do. -/
inductive Skips (machine : Machine) (word : Word) : Prop
  | equal (group : word.group = nibble 0x3) (same : machine.register word.x = word.nn)
  | notEqual (group : word.group = nibble 0x4) (apart : machine.register word.x ≠ word.nn)
  | same (group : word.group = nibble 0x5)
      (same : machine.register word.x = machine.register word.y)
  | different (group : word.group = nibble 0x9)
      (apart : machine.register word.x ≠ machine.register word.y)
  | pressed (group : word.group = nibble 0xE) (selector : word.nn = 0x9E)
      (down : machine.keypad.IsDown (machine.register word.x).toNat)
  | released (group : word.group = nibble 0xE) (selector : word.nn = 0xA1)
      (up : ¬ machine.keypad.IsDown (machine.register word.x).toNat)

/-- The address at which a machine goes on from a word that it has fetched, as an exact number. -/
structure GoesOnAt (machine : Machine) (word : Word) (next : Nat) : Prop where
  jump : word.group = nibble 0x1 ∨ word.group = nibble 0x2 → next = word.toNat % 4096
  ret : word.IsSystem 0xEE → ∃ address ∈ machine.stack.head?, next = address.toNat
  offset : word.group = nibble 0xB → next = word.toNat % 4096 +
    (machine.register (if machine.dialect.offsetByX then word.x else nibble 0)).toNat
  skip : machine.Skips word → next = machine.counter.toNat + 4
  /-- All other words, inside and outside of the language. -/
  pass : word.group ≠ nibble 0x1 → word.group ≠ nibble 0x2 → ¬ word.IsSystem 0xEE →
    word.group ≠ nibble 0xB → ¬ machine.Skips word → next = machine.counter.toNat + 2

private theorem keyIsDown_iff (x : Register) :
    machine.keyIsDown x = true ↔ machine.keypad.IsDown (machine.register x).toNat :=
  (machine.keypad.isDown_iff _).symm

private theorem skips_of_flowOf_eq_skip (encodes : word.Encodes instruction)
    (skips : machine.flowOf instruction = .skip) : machine.Skips word := by
  cases instruction with
  | skipEqual =>
    obtain ⟨group, rfl, rfl⟩ := encodes
    exact .equal group (beq_iff_eq.mp (Flow.skipWhen_eq_skip_iff.mp skips))
  | skipNotEqual =>
    obtain ⟨group, rfl, rfl⟩ := encodes
    exact .notEqual group (bne_iff_ne.mp (Flow.skipWhen_eq_skip_iff.mp skips))
  | skipSame =>
    obtain ⟨group, rfl, rfl⟩ := encodes
    exact .same group (beq_iff_eq.mp (Flow.skipWhen_eq_skip_iff.mp skips))
  | skipDifferent =>
    obtain ⟨group, rfl, rfl⟩ := encodes
    exact .different group (bne_iff_ne.mp (Flow.skipWhen_eq_skip_iff.mp skips))
  | skipPressed =>
    obtain ⟨group, selector, rfl⟩ := encodes
    exact .pressed group selector ((keyIsDown_iff _).mp (Flow.skipWhen_eq_skip_iff.mp skips))
  | skipReleased =>
    obtain ⟨group, selector, rfl⟩ := encodes
    refine .released group selector fun down => ?_
    have up := Flow.skipWhen_eq_skip_iff.mp skips
    rw [(keyIsDown_iff _).mpr down] at up
    cases up
  | ret =>
    rw [flowOf] at skips
    split at skips <;> cases skips
  | _ => cases skips

/-- A test whose condition holds skips. -/
theorem flowAt_of_test {condition : Bool} (encodes : word.Encodes instruction)
    (flow : machine.flowOf instruction = .skipWhen condition) (holds : condition = true) :
    machine.flowAt word = .skip := by
  rw [flowAt_of_encodes encodes, flow]
  exact Flow.skipWhen_eq_skip_iff.mpr holds

private theorem flowAt_of_skips (skips : machine.Skips word) : machine.flowAt word = .skip := by
  cases skips with
  | equal group same =>
    have encodes : word.Encodes (.skipEqual word.x word.nn) := ⟨group, rfl, rfl⟩
    exact flowAt_of_test encodes rfl (beq_iff_eq.mpr same)
  | notEqual group apart =>
    have encodes : word.Encodes (.skipNotEqual word.x word.nn) := ⟨group, rfl, rfl⟩
    exact flowAt_of_test encodes rfl (bne_iff_ne.mpr apart)
  | same group same =>
    have encodes : word.Encodes (.skipSame word.x word.y) := ⟨group, rfl, rfl⟩
    exact flowAt_of_test encodes rfl (beq_iff_eq.mpr same)
  | different group apart =>
    have encodes : word.Encodes (.skipDifferent word.x word.y) := ⟨group, rfl, rfl⟩
    exact flowAt_of_test encodes rfl (bne_iff_ne.mpr apart)
  | pressed group selector down =>
    have encodes : word.Encodes (.skipPressed word.x) := ⟨group, selector, rfl⟩
    exact flowAt_of_test encodes rfl ((keyIsDown_iff _).mpr down)
  | released group selector up =>
    have encodes : word.Encodes (.skipReleased word.x) := ⟨group, selector, rfl⟩
    have released : machine.keyIsDown word.x = false :=
      Bool.eq_false_iff.mpr fun down => up ((keyIsDown_iff _).mp down)
    exact flowAt_of_test encodes rfl (congrArg not released)

/-- A word without an instruction passes over nothing, and neither does one that is no test. -/
theorem flowAt_eq_next (jumps : word.group ≠ nibble 0x1) (calls : word.group ≠ nibble 0x2)
    (returns : ¬ word.IsSystem 0xEE) (offsets : word.group ≠ nibble 0xB)
    (skips : ¬ machine.Skips word) : machine.flowAt word = .next := by
  cases decoded : Instruction.ofWord? word with
  | none =>
    rw [flowAt, decoded]
    rfl
  | some instruction =>
    have encodes := (Instruction.ofWord?_eq_some_iff word instruction).mp decoded
    have unskipped : machine.flowOf instruction ≠ .skip :=
      fun skip => skips (skips_of_flowOf_eq_skip encodes skip)
    rw [flowAt_of_encodes encodes]
    cases instruction with
    | ret => exact absurd encodes returns
    | jump => exact absurd encodes.1 jumps
    | call => exact absurd encodes.1 calls
    | jumpOffset => exact absurd encodes.1 offsets
    | skipEqual | skipNotEqual | skipSame | skipDifferent | skipPressed | skipReleased =>
      exact Flow.skipWhen_eq_next unskipped
    | _ => rfl

/-- A word that was fetched by a cycle that succeeds is not zero. -/
theorem ne_zero_of_isOk (ready : machine.awaiting = none) (points : machine.PointsTo word)
    (succeeds : machine.cycle.result.isOk) : word ≠ 0 := by
  rintro rfl
  rw [cycle_of_fetchFails ready (.zero points)] at succeeds
  cases succeeds

private theorem counter_of_cycle (ready : machine.awaiting = none) (points : machine.PointsTo word)
    (succeeds : machine.cycle.result.isOk) :
    machine.cycle.machine.counter =
      (machine.flowAt word).apply machine.advanceCounter.counter := by
  have ran := cycle_of_pointsTo ready points (ne_zero_of_isOk ready points succeeds)
  rw [ran] at succeeds ⊢
  cases decoded : Instruction.ofWord? word with
  | none =>
    rw [machine.advanceCounter.execute_of_unknown decoded, flowAt, decoded]
    rfl
  | some instruction =>
    have encodes := (Instruction.ofWord?_eq_some_iff word instruction).mp decoded
    have same : machine.advanceCounter.flowOf instruction = machine.flowOf instruction :=
      flowOf_congr rfl rfl rfl rfl instruction
    rw [machine.advanceCounter.execute_of_encodes encodes] at succeeds ⊢
    rw [flowAt_of_encodes encodes, ← same]
    exact counter_of_perform succeeds

/-- A skip is two instructions long, and neither of the two moves wraps around. -/
theorem toNat_apply_skip (points : machine.PointsTo word) :
    (Flow.skip.apply machine.advanceCounter.counter).toNat = machine.counter.toNat + 4 := by
  have moved := toNat_counter_advanceCounter points
  obtain ⟨inside, -⟩ := points
  change (machine.advanceCounter.counter + 2).toNat = _
  rw [UInt16.toNat_add, moved]
  change (machine.counter.toNat + 2 + 2) % 65536 = _
  omega

private theorem toNat_add_offset (word : Word) (offset : UInt8) :
    (word.nnn + offset.toUInt16).toNat = word.toNat % 4096 + offset.toNat := by
  have small := offset.toNat_lt
  rw [UInt16.toNat_add, Word.toNat_nnn, UInt8.toNat_toUInt16]
  omega

private theorem goesOnAt_cycle (ready : machine.awaiting = none) (points : machine.PointsTo word)
    (succeeds : machine.cycle.result.isOk) :
    machine.GoesOnAt word machine.cycle.machine.counter.toNat := by
  have moved := counter_of_cycle ready points succeeds
  constructor
  case jump =>
    rintro (group | group)
    · have encodes : word.Encodes (.jump word.nnn) := ⟨group, rfl⟩
      rw [moved, flowAt_of_encodes encodes, ← word.toNat_nnn]
      rfl
    · have encodes : word.Encodes (.call word.nnn) := ⟨group, rfl⟩
      rw [moved, flowAt_of_encodes encodes, ← word.toNat_nnn]
      rfl
  case ret =>
    intro system
    have encodes : word.Encodes .ret := system
    rw [(cycle_of_upcoming (upcoming?_of_pointsTo ready points encodes)).1] at succeeds
    rw [moved, flowAt_of_encodes encodes, flowOf]
    obtain ⟨address, stack, stored, -⟩ | ⟨-, failed⟩ := machine.advanceCounter.ret_cases
    · have stored : machine.stack = address :: stack := stored
      rw [stored]
      exact ⟨address, rfl, rfl⟩
    · rw [perform, failed] at succeeds
      cases succeeds
  case offset =>
    intro group
    have encodes : word.Encodes (.jumpOffset word.x word.nnn) := ⟨group, rfl, rfl⟩
    rw [moved, flowAt_of_encodes encodes]
    exact toNat_add_offset word _
  case skip =>
    intro skips
    rw [moved, flowAt_of_skips skips, toNat_apply_skip points]
  case pass =>
    intro jumps calls returns offsets skips
    rw [moved, flowAt_eq_next jumps calls returns offsets skips,
      ← toNat_counter_advanceCounter points]
    rfl

private theorem result_of_isTest (machine : Machine) (test : instruction.isTest) :
    (machine.perform instruction).result = .ok .quiet := by
  cases instruction with
  | skipEqual | skipNotEqual | skipSame | skipDifferent => rfl
  | skipPressed x => exact (machine.testKey_eq x true).1
  | skipReleased x => exact (machine.testKey_eq x false).1
  | _ => cases test

/-- A test succeeds, and the cycle goes on behind one instruction or behind two. -/
theorem cycle_of_isTest (points : machine.PointsTo word) (ready : machine.awaiting = none)
    (encodes : word.Encodes instruction) (test : instruction.isTest) {condition : Bool}
    (flow : machine.flowOf instruction = .skipWhen condition) :
    machine.cycle.result = .ok .quiet ∧
      machine.cycle.machine.counter.toNat =
        if condition then machine.counter.toNat + 4 else machine.counter.toNat + 2 := by
  have ran := (cycle_of_upcoming (upcoming?_of_pointsTo ready points encodes)).1
  have result := ran.trans (machine.advanceCounter.result_of_isTest test)
  have succeeds : machine.cycle.result.isOk := by
    rw [result]
    rfl
  refine ⟨result, ?_⟩
  rw [counter_of_cycle ready points succeeds, flowAt_of_encodes encodes, flow]
  cases condition with
  | true => exact toNat_apply_skip points
  | false => exact toNat_counter_advanceCounter points

/-- Opposite words are tests of opposite conditions. -/
theorem tests_of_opposes (opposite : v.Opposes w) :
    ∃ first second : Instruction, v.Encodes first ∧ w.Encodes second ∧
      first.isTest ∧ second.isTest ∧
      ∀ machine : Machine, ∃ condition,
        machine.flowOf first = .skipWhen condition ∧
          machine.flowOf second = .skipWhen (!condition) := by
  cases opposite with
  | constant equal notEqual x value =>
    exact ⟨.skipEqual v.x v.nn, .skipNotEqual v.x v.nn, ⟨equal, rfl, rfl⟩, ⟨notEqual, x, value⟩,
      rfl, rfl, fun _ => ⟨_, rfl, rfl⟩⟩
  | register same different x y =>
    exact ⟨.skipSame v.x v.y, .skipDifferent v.x v.y, ⟨same, rfl, rfl⟩, ⟨different, x, y⟩,
      rfl, rfl, fun _ => ⟨_, rfl, rfl⟩⟩
  | key pressed released x =>
    exact ⟨.skipPressed v.x, .skipReleased v.x, ⟨pressed.1, pressed.2, rfl⟩,
      ⟨released.1, released.2, x⟩, rfl, rfl, fun _ => ⟨_, rfl, rfl⟩⟩

/-- Where a machine goes on. A pending wait keeps the counter where it is. Any other cycle that
succeeds goes on at the address that the table gives for the word it has fetched. Of two opposite
words, put where the counter of one machine points to, both are executed without a fault and exactly
one passes over the following instruction. -/
theorem counter_of_next_cycle (machine : Machine) :
    (∀ x, machine.awaiting = some x → machine.cycle.machine.counter = machine.counter) ∧
    (machine.awaiting = none →
      (∀ word, machine.PointsTo word → machine.cycle.result.isOk →
        machine.GoesOnAt word machine.cycle.machine.counter.toNat) ∧
      ∀ (v w : Word) (one other : Memory), v.Opposes w →
        { machine with memory := one }.PointsTo v →
        { machine with memory := other }.PointsTo w →
        let first := { machine with memory := one }.cycle
        let second := { machine with memory := other }.cycle
        let here := machine.counter.toNat
        first.result = .ok .quiet ∧ second.result = .ok .quiet ∧
          (first.machine.counter.toNat = here + 4 ∧ second.machine.counter.toNat = here + 2 ∨
            first.machine.counter.toNat = here + 2 ∧
              second.machine.counter.toNat = here + 4)) := by
  refine ⟨?_, ?_⟩
  · intro x waiting
    rw [cycle_of_awaiting waiting]
    obtain ⟨key, -, polled⟩ | ⟨-, polled⟩ := machine.poll_cases x
    · rw [polled]
      rfl
    · rw [polled]
  · intro ready
    refine ⟨fun word => goesOnAt_cycle ready, ?_⟩
    intro v w one other opposite pointsFirst pointsSecond first second here
    obtain ⟨test, counterTest, encodes, counterEncodes, isTest, isCounterTest, flows⟩ :=
      tests_of_opposes opposite
    obtain ⟨condition, flow, counterFlow⟩ := flows machine
    obtain ⟨result, moved⟩ := cycle_of_isTest pointsFirst ready encodes isTest
      ((flowOf_congr rfl rfl rfl rfl test).trans flow)
    obtain ⟨counterResult, counterMoved⟩ := cycle_of_isTest pointsSecond ready counterEncodes
      isCounterTest ((flowOf_congr rfl rfl rfl rfl counterTest).trans counterFlow)
    refine ⟨result, counterResult, ?_⟩
    cases condition with
    | true => exact .inl ⟨moved, counterMoved⟩
    | false => exact .inr ⟨moved, counterMoved⟩

/-- A machine about to jump from its last possible target by the largest offset. -/
def farJump : Machine :=
  (boot .superChip (.ofSeed 0) [0xBF, 0xFF]).setRegister flagRegister 255

/-- The jump leads behind the end of memory and does not wrap around. -/
theorem counter_of_next_cycle_farJump : farJump.cycle.machine.counter.toNat = 4095 + 255 := by
  obtain ⟨-, ready⟩ := counter_of_next_cycle farJump
  have points : farJump.PointsTo 0xBFFF := ⟨by decide +kernel, by decide +kernel⟩
  exact ((ready rfl).1 0xBFFF points (by decide +kernel)).offset rfl

end Machine

end Chip8
