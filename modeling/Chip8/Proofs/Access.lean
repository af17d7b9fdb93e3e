import Chip8.Proofs.Footprint
import Chip8.Proofs.History
import Chip8.Proofs.Transfer

/-! # Single bytes, blocks and programs

Memory is read and written byte by byte, in blocks, as instruction words and as programs, and each
of these ways has bounds of its own. `Memory.access_agrees` says that they agree, faults included:
a block is its bytes one after another. Only where a byte is refused they differ, since the bytes in
front of it stay, while a block with such a byte is not begun.

It also says what is in memory after any edits, some of which may have failed: at every address the
byte that the last successful edit has put there. A machine does nothing else to its memory, as
`Machine.memory_after` says, so this holds of every session as well.
-/

namespace Chip8

namespace Memory

variable {memory written : Memory} {address count : Nat} {block : List UInt8} {fault : Fault}

/-- Tries to store some bytes one by one, up to the first that is refused. Those in front of it
stay. -/
def putEach (memory : Memory) (address : Nat) : List UInt8 → Except Fault Unit × Memory
  | [] => (.ok (), memory)
  | byte :: block =>
    match memory.put address byte with
    | (.ok (), written) => written.putEach (address + 1) block
    | (.error fault, left) => (.error fault, left)

/-- Reads `count` bytes one by one, up to the first that cannot be read. -/
def readEach (memory : Memory) (address count : Nat) : Except Fault (List UInt8) :=
  (List.range' address count).mapM memory.read

private theorem put_of_lt (byte : UInt8) (inside : address < 4096) :
    memory.put address byte = (.ok (), ⟨memory.bytes.setIfInBounds address byte⟩) := by
  have same : memory.bytes.set address byte = memory.bytes.setIfInBounds address byte := by
    ext i bound
    rw [Vector.getElem_set, Vector.getElem_setIfInBounds]
  rw [put, dif_pos inside, same]

private theorem put_of_le (byte : UInt8) (outside : 4096 ≤ address) :
    memory.put address byte = (.error (.outOfMemory address size), memory) := by
  rw [put, dif_neg (Nat.not_lt.mpr outside)]

private theorem isOk_write_iff (byte : UInt8) :
    (memory.write address byte).isOk ↔ address < 4096 := by
  rw [write]
  by_cases inside : address < 4096
  · rw [put_of_lt byte inside]
    exact iff_of_true rfl inside
  · rw [put_of_le byte (Nat.le_of_not_lt inside)]
    exact iff_of_false Bool.false_ne_true inside

private theorem write_eq_error_iff (byte : UInt8) :
    memory.write address byte = .error fault ↔
      fault = .outOfMemory address size ∧ 4096 ≤ address := by
  rw [write]
  by_cases inside : address < 4096
  · rw [put_of_lt byte inside]
    simp [Except.map, inside]
  · have outside := Nat.le_of_not_lt inside
    rw [put_of_le byte outside]
    simp [Except.map, outside, eq_comm]

/-- The first address behind the end is the same for all blocks that reach over it. -/
private theorem max_succ_size (inside : address < 4096) :
    max (address + 1) size = max address size := by
  unfold size
  omega

private theorem max_size_of_le (outside : 4096 ≤ address) : max address size = address :=
  Nat.max_eq_left outside

private theorem putEach_cons_of_lt (byte : UInt8) (inside : address < 4096) :
    memory.putEach address (byte :: block) =
      putEach ⟨memory.bytes.setIfInBounds address byte⟩ (address + 1) block := by
  rw [putEach, put_of_lt byte inside]

private theorem putEach_cons_of_le (byte : UInt8) (outside : 4096 ≤ address) :
    memory.putEach address (byte :: block) = (.error (.outOfMemory address size), memory) := by
  rw [putEach, put_of_le byte outside]

/-- All bytes for which there is room are stored, also if later ones are refused. -/
theorem bytes_putEach (memory : Memory) (address : Nat) (block : List UInt8) :
    (memory.putEach address block).2.bytes = overwrite memory.bytes address block := by
  induction block generalizing memory address with
  | nil => rfl
  | cons byte block ih =>
    by_cases inside : address < 4096
    · rw [putEach_cons_of_lt byte inside, ih, overwrite]
    · rw [putEach_cons_of_le byte (Nat.le_of_not_lt inside)]
      ext i bound
      rw [getElem_overwrite, if_neg (by omega)]

private theorem putEach_of_fits (fits : address + block.length ≤ 4096) :
    (memory.putEach address block).1 = .ok () := by
  induction block generalizing memory address with
  | nil => rfl
  | cons byte block ih =>
    rw [List.length_cons] at fits
    rw [putEach_cons_of_lt byte (by omega), ih (by omega)]

/-- The first byte that is refused is the first one behind the end. The address in the fault is the
same for every rest of the block, up to that byte. -/
private theorem putEach_of_beyond (nonempty : block ≠ []) (beyond : 4096 < address + block.length) :
    (memory.putEach address block).1 = .error (.outOfMemory (max address size) size) := by
  induction block generalizing memory address with
  | nil => contradiction
  | cons byte block ih =>
    by_cases inside : address < 4096
    · rw [List.length_cons] at beyond
      have rest : block ≠ [] := by
        rintro rfl
        rw [List.length_nil] at beyond
        omega
      rw [putEach_cons_of_lt byte inside, ih rest (by omega), max_succ_size inside]
    · have outside := Nat.le_of_not_lt inside
      rw [putEach_cons_of_le byte outside, max_size_of_le outside]

private theorem putBlock_eq_putEach (nonempty : block ≠ [])
    (success : (memory.putEach address block).1 = .ok ()) :
    memory.putBlock address block = memory.putEach address block := by
  have fits : address + block.length ≤ 4096 := by
    apply Nat.le_of_not_lt
    intro beyond
    rw [putEach_of_beyond nonempty beyond] at success
    cases success
  rw [memory.putBlock_of_fits fits, ← bytes_putEach, ← success]

/-- A block is refused for the same reason as its bytes, but none of them is stored. -/
theorem putBlock_of_putEach_eq_error (failed : (memory.putEach address block).1 = .error fault) :
    memory.putBlock address block = (.error fault, memory) := by
  have beyond : 4096 < address + block.length := by
    apply Nat.lt_of_not_le
    intro fits
    rw [putEach_of_fits fits] at failed
    cases failed
  have nonempty : block ≠ [] := by
    rintro rfl
    cases failed
  rw [putEach_of_beyond nonempty beyond] at failed
  cases failed
  exact memory.putBlock_of_beyond beyond

/-- A block is refused for its first byte that would be refused on its own. -/
theorem writeBlock_eq_error_iff (memory : Memory) (address : Nat) (nonempty : block ≠ []) :
    memory.writeBlock address block = .error fault ↔
      ∃ k byte, block[k]? = some byte ∧ memory.write (address + k) byte = .error fault ∧
        ∀ j < k, ∀ other, block[j]? = some other → (memory.write (address + j) other).isOk := by
  have positive := List.length_pos_iff.mpr nonempty
  constructor
  · intro failed
    have beyond : 4096 < address + block.length := by
      apply Nat.lt_of_not_le
      intro fits
      rw [memory.writeBlock_of_fits fits] at failed
      cases failed
    rw [memory.writeBlock_of_beyond beyond] at failed
    have inside : 4096 - address < block.length := by omega
    have last : address + (4096 - address) = max address 4096 := by omega
    refine ⟨4096 - address, block[4096 - address], List.getElem?_eq_getElem inside, ?_, ?_⟩
    · cases failed
      exact (write_eq_error_iff _).mpr ⟨by rw [last]; rfl, by omega⟩
    · intro j before other _
      exact (isOk_write_iff other).mpr (by omega)
  · rintro ⟨k, byte, stored, refused, earlier⟩
    obtain ⟨inside, -⟩ := List.getElem?_eq_some_iff.mp stored
    obtain ⟨rfl, outside⟩ := (write_eq_error_iff byte).mp refused
    have first : max address size = address + k := by
      change max address 4096 = address + k
      cases k with
      | zero => omega
      | succ j =>
        have previous := List.getElem?_eq_getElem (Nat.lt_of_succ_lt inside)
        have room := (isOk_write_iff _).mp (earlier j (Nat.lt_succ_self j) _ previous)
        omega
    rw [memory.writeBlock_of_beyond (by omega), first]

private theorem readEach_succ_of_lt (inside : address < 4096) :
    memory.readEach address (count + 1) =
      (memory.readEach (address + 1) count).map (memory.bytes[address] :: ·) := by
  rw [readEach, List.range'_succ, List.mapM_cons, memory.read_of_lt inside]
  rfl

private theorem readEach_succ_of_le (outside : 4096 ≤ address) :
    memory.readEach address (count + 1) = .error (.outOfMemory address size) := by
  rw [readEach, List.range'_succ, List.mapM_cons, memory.read_of_le outside]
  rfl

/-- The bytes of a part of memory in order. -/
private theorem toList_extract_succ (inside : address < 4096) :
    (memory.bytes.toArray.extract address (address + (count + 1))).toList =
      memory.bytes[address] ::
        (memory.bytes.toArray.extract (address + 1) (address + 1 + count)).toList := by
  have long : address + (count + 1) - address = count + 1 := by omega
  have short : address + 1 + count - (address + 1) = count := by omega
  have stored : address < memory.bytes.toArray.toList.length := by simpa using inside
  rw [Array.toList_extract, Array.toList_extract, List.extract_eq_take_drop,
    List.extract_eq_take_drop, long, short, List.drop_eq_getElem_cons stored, List.take_succ_cons]
  rfl

private theorem readEach_of_fits (fits : address + count ≤ 4096) : memory.readEach address count =
    .ok (memory.bytes.toArray.extract address (address + count)).toList := by
  induction count generalizing address with
  | zero => simp [readEach]; rfl
  | succ count ih =>
    rw [readEach_succ_of_lt (by omega), ih (by omega), toList_extract_succ (by omega)]
    rfl

private theorem readEach_of_beyond (nonempty : count ≠ 0) (beyond : 4096 < address + count) :
    memory.readEach address count = .error (.outOfMemory (max address size) size) := by
  induction count generalizing address with
  | zero => contradiction
  | succ count ih =>
    by_cases inside : address < 4096
    · rw [readEach_succ_of_lt inside, ih (by omega) (by omega), max_succ_size inside]
      rfl
    · have outside := Nat.le_of_not_lt inside
      rw [readEach_succ_of_le outside, max_size_of_le outside]

private theorem readBlock_eq_readEach (memory : Memory) (address : Nat) (nonempty : count ≠ 0) :
    memory.readBlock address count = memory.readEach address count := by
  unfold readBlock
  split
  next fits => exact (readEach_of_fits fits).symm
  next beyond => exact (readEach_of_beyond nonempty (Nat.lt_of_not_le beyond)).symm

/-- A word is its two bytes, the high one first, and the first that is missing is named. -/
theorem word_eq_bind_read (memory : Memory) (address : Nat) :
    (memory.word address).map UInt16.toNat =
      (memory.read address).bind fun high =>
        (memory.read (address + 1)).map fun low => 256 * high.toNat + low.toNat := by
  unfold word Word.fetch read
  rw [Vector.getElem?_toArray, Vector.getElem?_toArray]
  cases memory.bytes[address]? with
  | none => simp [Except.map, Except.bind, size]
  | some high =>
    cases memory.bytes[address + 1]? with
    | none => simp [Except.map, Except.bind, size]
    | some low => simp [Except.map, Except.bind, Word.toNat_ofBytes]

/-- A change of memory. -/
inductive Edit where
  | write (address : Nat) (byte : UInt8)
  | writeBlock (address : Nat) (block : List UInt8)
  | load (program : List UInt8)

/-- The byte that an edit puts at an address, if it covers it. -/
def Edit.byteAt? : Edit → Nat → Option UInt8
  | .write address byte, i => if address = i then some byte else none
  | .writeBlock address block, i => if address ≤ i then block[i - address]? else none
  | .load program, i => if 512 ≤ i then (program.take 3584)[i - 512]? else none

/-- Tries to make a change. The memory is the one that the attempt leaves behind. -/
def edit (memory : Memory) : Edit → Except Fault Unit × Memory
  | .write address byte => memory.put address byte
  | .writeBlock address block => memory.putBlock address block
  | .load program => (.ok (), memory.load program)

/-- The memory that some attempts leave behind, each of which may have failed. -/
def afterEdits (memory : Memory) (edits : List Edit) : Memory :=
  edits.foldl (fun memory edit => (memory.edit edit).2) memory

private theorem afterEdits_cons (memory : Memory) (edit : Edit) (edits : List Edit) :
    memory.afterEdits (edit :: edits) = (memory.edit edit).2.afterEdits edits := rfl

private theorem afterEdits_append (memory : Memory) (first second : List Edit) :
    memory.afterEdits (first ++ second) = (memory.afterEdits first).afterEdits second :=
  List.foldl_append ..

/-- The edits that succeed when their turn comes. -/
def successes (memory : Memory) : List Edit → List Edit
  | [] => []
  | edit :: edits =>
    (if (memory.edit edit).1.isOk then [edit] else []) ++ (memory.edit edit).2.successes edits

/-- The byte that the last successful edit to cover an address has put there. -/
def lastByte? (memory : Memory) (edits : List Edit) (i : Nat) : Option UInt8 :=
  (memory.successes edits).reverse.findSome? (·.byteAt? i)

/-- An edit that fails is not made at all. -/
theorem edit_of_error {edit : Edit} (failed : (memory.edit edit).1 = .error fault) :
    (memory.edit edit).2 = memory := by
  cases edit with
  | write address byte =>
    rw [Memory.edit] at failed ⊢
    by_cases inside : address < 4096
    · rw [put_of_lt byte inside] at failed
      cases failed
    · rw [put_of_le byte (Nat.le_of_not_lt inside)]
  | writeBlock address block =>
    rw [Memory.edit] at failed ⊢
    obtain ⟨written, -, left⟩ | ⟨_, -, left⟩ := memory.putBlock_cases address block
    · rw [left] at failed
      cases failed
    · rw [left]
  | load program => cases failed

/-- An edit that succeeds puts its own bytes where it covers memory and leaves the others. -/
theorem getElem_edit {edit : Edit} (success : (memory.edit edit).1 = .ok ()) {i : Nat}
    (inside : i < 4096) :
    (memory.edit edit).2.bytes[i] = (edit.byteAt? i).getD memory.bytes[i] := by
  cases edit with
  | write address byte =>
    simp only [Memory.edit] at success ⊢
    by_cases room : address < 4096
    · simp only [put_of_lt byte room, Vector.getElem_setIfInBounds, Edit.byteAt?]
      split <;> rfl
    · rw [put_of_le byte (Nat.le_of_not_lt room)] at success
      cases success
  | writeBlock address block =>
    simp only [Memory.edit] at success ⊢
    obtain ⟨written, stored, left⟩ | ⟨_, -, left⟩ := memory.putBlock_cases address block
    · simp only [left, getElem_writeBlock stored i inside, Edit.byteAt?]
      split <;> rfl
    · rw [left] at success
      cases success
  | load program =>
    simp only [Memory.edit, getElem_load, Edit.byteAt?]
    split <;> rfl

/-- What is in memory after some edits is what the last of them to cover it has put there. The
induction is from the first edit on, since an edit succeeds or fails in the memory that it meets. -/
theorem getElem_afterEdits (memory : Memory) (edits : List Edit) {i : Nat} (inside : i < 4096) :
    (memory.afterEdits edits).bytes[i] = (memory.lastByte? edits i).getD memory.bytes[i] := by
  induction edits generalizing memory with
  | nil => rfl
  | cons edit edits ih =>
    rw [afterEdits_cons, ih, lastByte?, lastByte?, successes, List.reverse_append,
      List.findSome?_append, Option.getD_or]
    congr 1
    cases made : (memory.edit edit).1 with
    | ok _ =>
      rw [getElem_edit made inside]
      simp [Except.isOk, Except.toBool]
    | error fault =>
      rw [edit_of_error made]
      rfl

private theorem getElem_blank {i : Nat} (inside : i < 4096) :
    blank.bytes[i] = Font.glyphs[i]?.getD 0 := by
  unfold blank
  rw [getElem_overwrite, Vector.getElem_replicate]
  exact if_pos (Nat.zero_le i)

private theorem putBlock_nil (memory : Memory) (address : Nat) : memory.putBlock address [] =
    if address ≤ 4096 then (.ok (), memory) else (.error (.outOfMemory address 4096), memory) := by
  by_cases within : address ≤ 4096
  · simp [putBlock, size, within, overwrite]
  · simp [putBlock, size, within, Nat.le_of_not_le within]

private theorem readBlock_zero (memory : Memory) (address : Nat) : memory.readBlock address 0 =
    if address ≤ 4096 then .ok [] else .error (.outOfMemory address 4096) := by
  by_cases within : address ≤ 4096
  · simp [readBlock, size, within]
  · simp [readBlock, size, within, Nat.le_of_not_le within]

end Memory

namespace Machine

variable {machine : Machine}

/-- The block that an instruction tries to store at `I`. -/
def storedBlock? (machine : Machine) : Instruction → Option (List UInt8)
  | .decimal x => some (decimalDigits (machine.register x))
  | .store x => some (machine.firstRegisters x)
  | _ => none

/-- The edits that an action tries to make, be it a single cycle or no cycle at all. -/
def editsAt (machine : Machine) : Action → List Memory.Edit
  | .cycle =>
    (machine.upcoming?.bind machine.storedBlock?).toList.map (.writeBlock machine.index.toNat ·)
  | .poke address block => [.writeBlock address block]
  | _ => []

/-- The edits that a session without frames tries to make. -/
def edits (machine : Machine) : List Action → List Memory.Edit
  | [] => []
  | action :: session => machine.editsAt action ++ (machine.act action).machine.edits session

/-- A store leaves the memory behind that the attempt to write its block leaves behind. -/
theorem memory_storeBlock (machine : Machine) (block : List UInt8) {advance : Machine → Machine}
    (keeps : ∀ machine, (advance machine).memory = machine.memory) :
    (machine.storeBlock block advance).machine.memory =
      (machine.memory.putBlock machine.index.toNat block).2 := by
  unfold storeBlock
  obtain ⟨fault | _, memory⟩ := machine.memory.putBlock machine.index.toNat block
  · rfl
  · exact keeps _

private theorem memory_cycle (machine : Machine) :
    machine.cycle.machine.memory = machine.memory.afterEdits (machine.editsAt .cycle) := by
  cases next : machine.upcoming? with
  | none =>
    rw [editsAt, next]
    refine machine.cycle_sameExcept.memory ?_
    simp [touchedNext, next]
  | some instruction =>
    rw [editsAt, next]
    by_cases touched : .memory ∈ instruction.touches
    · rw [(cycle_of_upcoming next).2]
      cases instruction with
      | decimal x => exact machine.advanceCounter.memory_storeBlock _ fun _ => rfl
      | store x =>
        refine machine.advanceCounter.memory_storeBlock _ fun met => ?_
        rw [advanceIndex_eq]
        rfl
      | _ => simp [Instruction.touches] at touched
    · rw [(cycle_sameExcept_of_upcoming next).memory touched]
      cases instruction with
      | decimal | store => simp [Instruction.touches] at touched
      | _ => rfl

/-- Cycles and what happens between them do nothing to memory but the edits that they are listed to
try. -/
theorem memory_act (machine : Machine) {action : Action}
    (single : ∀ keys cycles, action ≠ .frame keys cycles) :
    (machine.act action).machine.memory = machine.memory.afterEdits (machine.editsAt action) := by
  cases action with
  | frame keys cycles => exact absurd rfl (single keys cycles)
  | cycle => exact machine.memory_cycle
  | poke address block =>
    rw [act, poke_eq]
    rfl
  | _ => rfl

/-- All that a session does to memory are edits, each of which may have failed. -/
theorem memory_after (machine : Machine) {session : List Action}
    (single : ∀ keys cycles, .frame keys cycles ∉ session) :
    (machine.after session).memory = machine.memory.afterEdits (machine.edits session) := by
  induction session generalizing machine with
  | nil => rfl
  | cons action session ih =>
    have first := machine.memory_act fun keys cycles =>
      Ne.symm (List.ne_of_not_mem_cons (single keys cycles))
    rw [after_cons, ih _ fun keys cycles => List.not_mem_of_not_mem_cons (single keys cycles),
      first, edits, Memory.afterEdits_append]

end Machine

namespace Memory

/-- The ways to memory agree, for all addresses inside and outside.

A block that is not empty is stored as its bytes are one by one, with the same memory afterwards. If
one of them is refused then so is the block, with the same fault, which is that of the first byte
that could not be written on its own. The bytes in front of that one are stored if they come one by
one, but of the block none is. A block is read as its bytes are, and an instruction word as its two
bytes. An empty block has no effect but must not begin behind the end.

Single bytes, blocks and programs may be written in any order, and some writes may fail: an address
always holds the byte that the last successful write to cover it has put there, and before that a
byte of the font or zero. This is so for whatever a machine does, since its memory is that of a
fresh one after its program was loaded and its stores and pokes were tried. -/
theorem access_agrees (memory : Memory) (address : Nat) :
    (∀ block ≠ [],
      ((memory.putEach address block).1 = .ok () →
        memory.putBlock address block = memory.putEach address block) ∧
      (∀ fault, (memory.putEach address block).1 = .error fault →
        memory.putBlock address block = (.error fault, memory)) ∧
      (∀ fault, memory.writeBlock address block = .error fault ↔
        ∃ k byte, block[k]? = some byte ∧ memory.write (address + k) byte = .error fault ∧
          ∀ j < k, ∀ other, block[j]? = some other → (memory.write (address + j) other).isOk) ∧
      (memory.putEach address block).2.bytes = overwrite memory.bytes address block) ∧
    (∀ count ≠ 0, memory.readBlock address count = memory.readEach address count) ∧
    (memory.word address).map UInt16.toNat =
      ((memory.read address).bind fun high =>
        (memory.read (address + 1)).map fun low => 256 * high.toNat + low.toNat) ∧
    (memory.putBlock address [] =
      if address ≤ 4096 then (.ok (), memory) else (.error (.outOfMemory address 4096), memory)) ∧
    (memory.readBlock address 0 =
      if address ≤ 4096 then .ok [] else .error (.outOfMemory address 4096)) ∧
    (∀ (edits : List Edit) (i : Nat), i < 4096 →
      (blank.afterEdits edits).read i =
        .ok ((blank.lastByte? edits i).getD (Font.glyphs[i]?.getD 0))) ∧
    ∀ (dialect : Dialect) (random : Random) (program : List UInt8) (session : List Action),
      let start := Machine.boot dialect random program
      (start.after session).memory =
        blank.afterEdits (.load program :: start.edits (start.unrolled session)) := by
  refine ⟨?blocks, fun count => memory.readBlock_eq_readEach address,
    memory.word_eq_bind_read address, memory.putBlock_nil address, memory.readBlock_zero address,
    ?edits, ?sessions⟩
  case blocks =>
    intro block nonempty
    exact ⟨putBlock_eq_putEach nonempty, fun fault => putBlock_of_putEach_eq_error,
      fun fault => memory.writeBlock_eq_error_iff address nonempty,
      memory.bytes_putEach address block⟩
  case edits =>
    intro edits i inside
    rw [read_of_lt _ inside, getElem_afterEdits _ _ inside, getElem_blank inside]
  case sessions =>
    intro dialect random program session start
    have booted : start.memory = (blank.edit (.load program)).2 := rfl
    rw [← start.after_unrolled session,
      start.memory_after (start.frame_not_mem_unrolled session), afterEdits_cons, booted]

end Memory

end Chip8
