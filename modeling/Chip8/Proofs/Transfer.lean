import Chip8.Proofs.Effects
import Chip8.Proofs.Failure

/-! # Registers through memory

A store writes the registers `V0` to `VX` one behind the other, and a fill reads them from there.
`Memory.Holds` says which bytes stand in memory from an address on; what a store leaves there and
what a fill takes from there is put in its terms, so that nothing else has to be known about the
time between the two. `Machine.execute_transfer` collects what follows: registers come back from
memory, two stores in a row write one block, and the digits of a byte add up to it.
-/

namespace Chip8

namespace Memory

variable {memory written : Memory} {address : Nat} {first second block : List UInt8}

/-- The bytes from an address on are the listed ones. -/
def Holds (memory : Memory) (address : Nat) (block : List UInt8) : Prop :=
  ∀ k < block.length, memory.bytes[address + k]? = block[k]?

/-- The two memories agree outside of `count` bytes from an address on. -/
def SameOutside (before after : Memory) (address count : Nat) : Prop :=
  ∀ (i : Nat) (inside : i < 4096), ¬ (address ≤ i ∧ i < address + count) →
    after.bytes[i] = before.bytes[i]

theorem Holds.append (left : memory.Holds address first)
    (right : memory.Holds (address + first.length) second) :
    memory.Holds address (first ++ second) := by
  intro k inside
  by_cases early : k < first.length
  · rw [left k early, List.getElem?_append_left early]
  · obtain ⟨rest, rfl⟩ := Nat.exists_eq_add_of_le (Nat.le_of_not_lt early)
    rw [List.length_append] at inside
    rw [← Nat.add_assoc, right rest (by omega), List.getElem?_append_right (Nat.le_add_right ..),
      Nat.add_sub_cancel_left]

theorem Holds.left (holds : memory.Holds address (first ++ second)) :
    memory.Holds address first := by
  intro k inside
  have within : k < (first ++ second).length := by
    rw [List.length_append]
    omega
  rw [holds k within, List.getElem?_append_left inside]

theorem Holds.right (holds : memory.Holds address (first ++ second)) :
    memory.Holds (address + first.length) second := by
  intro k inside
  have within : first.length + k < (first ++ second).length := by
    rw [List.length_append]
    omega
  rw [Nat.add_assoc, holds _ within, List.getElem?_append_right (Nat.le_add_right ..),
    Nat.add_sub_cancel_left]

/-- A block stays in memory if all that changes lies outside of it. -/
theorem Holds.of_sameOutside {start count : Nat} (holds : memory.Holds address block)
    (same : memory.SameOutside written start count)
    (apart : address + block.length ≤ start ∨ start + count ≤ address) :
    written.Holds address block := by
  intro k inside
  rw [← holds k inside]
  by_cases within : address + k < 4096
  · rw [Vector.getElem?_eq_getElem within, Vector.getElem?_eq_getElem within,
      same _ within (by omega)]
  · rw [Vector.getElem?_eq_none (by omega), Vector.getElem?_eq_none (by omega)]

private theorem holds_writeBlock (success : memory.writeBlock address block = .ok written) :
    written.Holds address block := by
  intro k inside
  have fits := fits_of_writeBlock success
  have within : address + k < 4096 := by omega
  rw [Vector.getElem?_eq_getElem within, getElem_writeBlock success _ within,
    if_pos (Nat.le_add_right ..), Nat.add_sub_cancel_left, List.getElem?_eq_getElem inside]
  rfl

private theorem sameOutside_writeBlock (success : memory.writeBlock address block = .ok written) :
    memory.SameOutside written address block.length := by
  intro i inside outside
  exact Machine.getElem_writeBlock_of_outside inside success outside

private theorem holds_readBlock {count : Nat}
    (success : memory.readBlock address count = .ok block) :
    memory.Holds address block := by
  intro k inside
  rw [Machine.length_readBlock success] at inside
  unfold readBlock at success
  split at success
  next fits =>
    cases success
    unfold size at fits
    rw [Array.getElem?_toList, Array.getElem?_extract_of_lt (by simp; omega)]
    exact Vector.getElem?_eq_getElem (by omega)
  next => cases success

end Memory

namespace Machine

variable {machine : Machine} {x : Register} {outcome : Outcome} {word : Word}

/-- The registers `V0` to `VX` in order. -/
def firstRegisters (machine : Machine) (x : Register) : List UInt8 :=
  machine.registers.toList.take (x.val + 1)

@[simp] theorem length_firstRegisters (machine : Machine) (x : Register) :
    (machine.firstRegisters x).length = x.val + 1 := by
  rw [firstRegisters, List.length_take, Vector.length_toList]
  omega

private theorem getElem?_firstRegisters (machine : Machine) {r x : Register} (within : r ≤ x) :
    (machine.firstRegisters x)[r.val]? = some (machine.register r) := by
  have early : r.val < x.val + 1 := Nat.lt_succ_of_le within
  rw [firstRegisters, List.getElem?_take_of_lt early, Vector.getElem?_toList,
    Vector.getElem?_eq_getElem r.isLt]
  rfl

/-- Where `I` is left behind `x + 1` bytes, as an exact number. -/
def indexBehind (machine : Machine) (x : Register) : Nat :=
  if machine.dialect.advanceIndex then machine.index.toNat + x.val + 1 else machine.index.toNat

private theorem toNat_index_advanceIndex (machine : Machine) (x : Register)
    (fits : machine.index.toNat + x.val < 4096) :
    (machine.advanceIndex (x.val + 1)).index.toNat = machine.indexBehind x := by
  unfold advanceIndex indexBehind
  split
  · have step : (UInt16.ofNat (x.val + 1)).toNat = x.val + 1 := by
      rw [UInt16.toNat_ofNat']
      omega
    rw [UInt16.toNat_add, step]
    omega
  · rfl

/-- What a store of `V0` to `VX` leaves behind. -/
structure Stored (machine : Machine) (x : Register) (outcome : Outcome) : Prop where
  result : outcome.result = .ok .quiet
  block : outcome.machine.memory.Holds machine.index.toNat (machine.firstRegisters x)
  others : machine.memory.SameOutside outcome.machine.memory machine.index.toNat (x.val + 1)
  registers : outcome.machine.registers = machine.registers
  dialect : outcome.machine.dialect = machine.dialect
  index : outcome.machine.index.toNat = machine.indexBehind x

/-- What a fill of `V0` to `VX` leaves behind. -/
structure Filled (machine : Machine) (x : Register) (outcome : Outcome) : Prop where
  result : outcome.result = .ok .quiet
  filled : ∀ r ≤ x, machine.memory.bytes[machine.index.toNat + r.val]? =
    some (outcome.machine.register r)
  others : ∀ r, x < r → outcome.machine.register r = machine.register r
  memory : outcome.machine.memory = machine.memory
  index : outcome.machine.index.toNat = machine.indexBehind x

/-- What storing the digits of `VX` leaves behind. -/
structure DigitsStored (machine : Machine) (x : Register) (outcome : Outcome) : Prop where
  result : outcome.result = .ok .quiet
  digits : ∃ hundreds tens ones : UInt8,
    hundreds.toNat ≤ 9 ∧ tens.toNat ≤ 9 ∧ ones.toNat ≤ 9 ∧
      100 * hundreds.toNat + 10 * tens.toNat + ones.toNat = (machine.register x).toNat ∧
      outcome.machine.memory.Holds machine.index.toNat [hundreds, tens, ones]
  others : machine.memory.SameOutside outcome.machine.memory machine.index.toNat 3
  registers : outcome.machine.registers = machine.registers
  index : outcome.machine.index = machine.index

/-- A block that fits is stored as a whole, and nothing else is. -/
theorem storeBlock_of_fits (block : List UInt8) (advance : Machine → Machine)
    (fits : machine.index.toNat + block.length ≤ 4096) :
    ∃ memory, machine.storeBlock block advance = .done (advance { machine with memory := memory }) ∧
      memory.Holds machine.index.toNat block ∧
      machine.memory.SameOutside memory machine.index.toNat block.length := by
  obtain ⟨memory, written, stored⟩ | ⟨fault, failed⟩ := machine.storeBlock_cases block advance
  · exact ⟨memory, stored, Memory.holds_writeBlock written, Memory.sameOutside_writeBlock written⟩
  · have refused : (machine.storeBlock block advance).result = .error fault := by rw [failed]; rfl
    have beyond := ((storeBlock_eq_error_iff block advance).mp refused).2
    omega

private theorem stored_perform (fits : machine.index.toNat + x.val < 4096) :
    machine.Stored x (machine.perform (.store x)) := by
  have size := machine.length_firstRegisters x
  obtain ⟨memory, ran, holds, same⟩ := machine.storeBlock_of_fits (machine.firstRegisters x)
    (·.advanceIndex (x.val + 1)) (by omega)
  have left : machine.perform (.store x) = _ := ran
  rw [size] at same
  rw [left, advanceIndex_eq]
  refine ⟨rfl, holds, same, rfl, rfl, ?_⟩
  exact toNat_index_advanceIndex { machine with memory := memory } x fits

private theorem filled_perform (fits : machine.index.toNat + x.val < 4096) :
    machine.Filled x (machine.perform (.fill x)) := by
  obtain ⟨block, read, filled⟩ | ⟨fault, failed⟩ := machine.fillRegisters_cases x
  · have size := length_readBlock read
    have holds := Memory.holds_readBlock read
    have left : machine.perform (.fill x) = _ := filled
    rw [left, advanceIndex_eq]
    refine ⟨rfl, ?_, ?_, rfl, ?_⟩
    · intro r within
      have early : r.val < block.length := by
        rw [size]
        exact Nat.lt_succ_of_le within
      have placed : (overwrite machine.registers 0 block)[r.val] = block[r.val] := by
        rw [getElem_overwrite, if_pos (Nat.zero_le _), Nat.sub_zero,
          List.getElem?_eq_getElem early]
        rfl
      rw [holds r.val early, List.getElem?_eq_getElem early, ← placed]
      rfl
    · intro r behind
      exact register_overwrite_of_length_le (by rw [size]; exact behind)
    · exact toNat_index_advanceIndex
        { machine with registers := overwrite machine.registers 0 block } x fits
  · have refused : (machine.fillRegisters x).result = .error fault := by rw [failed]; rfl
    have beyond := ((fillRegisters_eq_error_iff x).mp refused).2
    omega

private theorem digitsStored_perform (fits : machine.index.toNat + 2 < 4096) :
    machine.DigitsStored x (machine.perform (.decimal x)) := by
  obtain ⟨memory, ran, holds, same⟩ :=
    machine.storeBlock_of_fits (decimalDigits (machine.register x)) id fits
  have left : machine.perform (.decimal x) = _ := ran
  rw [left]
  refine ⟨rfl, ⟨_, _, _, ?_, ?_, ?_, ?_, holds⟩, same, rfl, rfl⟩
  all_goals
    have bound := (machine.register x).toNat_lt
    simp only [UInt8.toNat_div, UInt8.toNat_mod, UInt8.reduceToNat]
    omega

private theorem Stored.of_execute (encodes : word.Encodes (.store x))
    (fits : machine.index.toNat + x.val < 4096) : machine.Stored x (machine.execute word) := by
  obtain ⟨result, block, others, registers, dialect, index⟩ := machine.stored_perform fits
  rw [machine.execute_of_encodes encodes]
  exact ⟨result, block, others, registers, dialect, index⟩

private theorem Filled.of_execute (encodes : word.Encodes (.fill x))
    (fits : machine.index.toNat + x.val < 4096) : machine.Filled x (machine.execute word) := by
  obtain ⟨result, filled, others, memory, index⟩ := machine.filled_perform fits
  rw [machine.execute_of_encodes encodes]
  exact ⟨result, filled, others, memory, index⟩

private theorem DigitsStored.of_execute (encodes : word.Encodes (.decimal x))
    (fits : machine.index.toNat + 2 < 4096) : machine.DigitsStored x (machine.execute word) := by
  obtain ⟨result, digits, others, registers, index⟩ := machine.digitsStored_perform fits
  rw [machine.execute_of_encodes encodes]
  exact ⟨result, digits, others, registers, index⟩

/-- A fill from the bytes that a store has left gives the registers the values that they had. -/
theorem Filled.restores {later : Machine} {first : Outcome} (stored : machine.Stored x first)
    (filled : later.Filled x outcome) (back : later.index = machine.index)
    (intact : ∀ i, machine.index.toNat ≤ i → i ≤ machine.index.toNat + x.val →
      later.memory.bytes[i]? = first.machine.memory.bytes[i]?)
    {r : Register} (within : r ≤ x) : outcome.machine.register r = machine.register r := by
  have bound : r.val ≤ x.val := within
  have taken := filled.filled r within
  rw [back, intact _ (Nat.le_add_right ..) (Nat.add_le_add_left bound _)] at taken
  have put := stored.block r.val (by rw [length_firstRegisters]; omega)
  rw [machine.getElem?_firstRegisters within] at put
  exact Option.some.inj (taken.symm.trans put)

/-- Two stores in a row leave one block behind, if the first one moves `I` on. Then the second
begins right behind the first block and leaves it alone. -/
theorem Stored.holds_append {y : Register} {first second : Outcome}
    (stored : machine.Stored x first) (again : first.machine.Stored y second)
    (advancing : machine.dialect.advanceIndex = true) :
    second.machine.memory.Holds machine.index.toNat
      (machine.firstRegisters x ++ machine.firstRegisters y) := by
  have behind : first.machine.index.toNat = machine.index.toNat + x.val + 1 := by
    rw [stored.index, indexBehind, if_pos advancing]
  have values : first.machine.firstRegisters y = machine.firstRegisters y := by
    rw [firstRegisters, stored.registers, firstRegisters]
  have size := machine.length_firstRegisters x
  apply Memory.Holds.append
  · exact stored.block.of_sameOutside again.others (.inl (by omega))
  · have right := again.block
    rw [values, behind] at right
    rwa [size]

/-- Registers through memory, whatever the dialect.

A store within memory puts `V0` to `VX` at `I` and changes no other byte. It can be taken back at
any later time: if those bytes are still there and `I` is the same, then a fill restores `V0` to
`VX`, whatever the registers hold by then, and leaves the other registers alone. In the dialects
that move `I` on, each of the two leaves it exactly behind the last byte, so that two stores in a
row leave one block behind; in the others it stays where it is. The digits of a byte are stored as
three bytes below ten that add up to it, and neither `I` nor a register is changed. -/
theorem execute_transfer (machine : Machine) (x : Register) :
    (∀ store : Word, store.Encodes (.store x) → machine.index.toNat + x.val < 4096 →
      let stored := machine.execute store
      machine.Stored x stored ∧
        (∀ (later : Machine) (fill : Word), fill.Encodes (.fill x) → later.index = machine.index →
          (∀ i, machine.index.toNat ≤ i → i ≤ machine.index.toNat + x.val →
            later.memory.bytes[i]? = stored.machine.memory.bytes[i]?) →
          let filled := later.execute fill
          later.Filled x filled ∧
            ∀ r ≤ x, filled.machine.register r = machine.register r) ∧
        (∀ (y : Register) (again : Word), again.Encodes (.store y) →
          machine.dialect.advanceIndex = true → machine.index.toNat + x.val + 1 + y.val < 4096 →
          let both := stored.machine.execute again
          both.result = .ok .quiet ∧
            both.machine.memory.Holds machine.index.toNat
              (machine.firstRegisters x ++ machine.firstRegisters y))) ∧
    ∀ decimal : Word, decimal.Encodes (.decimal x) → machine.index.toNat + 2 < 4096 →
      machine.DigitsStored x (machine.execute decimal) := by
  refine ⟨?_, fun decimal => DigitsStored.of_execute⟩
  intro store encodes fits stored
  have left : machine.Stored x stored := .of_execute encodes fits
  refine ⟨left, ?_, ?_⟩
  · intro later fill fills back intact filled
    have taken : later.Filled x filled := .of_execute fills (by rw [back]; exact fits)
    exact ⟨taken, fun r within => taken.restores left back intact within⟩
  · intro y again stores advancing room both
    have behind : stored.machine.index.toNat = machine.index.toNat + x.val + 1 := by
      rw [left.index, indexBehind, if_pos advancing]
    have second : stored.machine.Stored y both := .of_execute stores (by rw [behind]; exact room)
    exact ⟨second.result, left.holds_append second advancing⟩

/-- A machine that moves `I` on and has sixteen bytes from there to the end of memory. -/
def lastBytes : Machine :=
  { fresh .cosmac (.ofSeed 0) with
    index := 4080
    registers := (Vector.range 16).map fun r => UInt8.ofNat (255 - r) }

/-- Two stores of eight registers end with the last byte of memory, and the first one is taken back
by a machine that was not there. -/
theorem execute_transfer_lastBytes :
    let stored := lastBytes.execute 0xF755
    let both := stored.machine.execute 0xF755
    let later := { fresh .standard (.ofSeed 1) with index := 4080, memory := stored.machine.memory }
    both.result = .ok .quiet ∧
      both.machine.memory.Holds 4080 (lastBytes.firstRegisters 7 ++ lastBytes.firstRegisters 7) ∧
      (later.execute 0xF765).machine.register 7 = lastBytes.register 7 ∧
      ∃ hundreds tens ones : UInt8,
        100 * hundreds.toNat + 10 * tens.toNat + ones.toNat = (lastBytes.register 7).toNat ∧
          (lastBytes.execute 0xF733).machine.memory.Holds 4080 [hundreds, tens, ones] := by
  intro stored both later
  have stores : Word.Encodes 0xF755 (.store 7) := ⟨rfl, rfl, rfl⟩
  have fills : Word.Encodes 0xF765 (.fill 7) := ⟨rfl, rfl, rfl⟩
  have decimals : Word.Encodes 0xF733 (.decimal 7) := ⟨rfl, rfl, rfl⟩
  obtain ⟨storing, digits⟩ := execute_transfer lastBytes 7
  obtain ⟨-, restoring, doubling⟩ := storing 0xF755 stores (by decide)
  obtain ⟨result, holds⟩ := doubling 7 0xF755 stores rfl (by decide)
  obtain ⟨-, restored⟩ := restoring later 0xF765 fills rfl fun _ _ _ => rfl
  obtain ⟨hundreds, tens, ones, -, -, -, sum, written⟩ :=
    (digits 0xF733 decimals (by decide)).digits
  exact ⟨result, holds, restored 7 (Nat.le_refl 7), hundreds, tens, ones, sum, written⟩

end Machine

end Chip8
