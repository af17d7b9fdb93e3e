import Chip8.Word
import Chip8.Overwrite

/-! # Memory

A flat space of 4096 bytes. The font sits at the start, the 512 bytes up to the program are the
interpreter's own, and the rest holds the program and its data.

Every access is checked, and the fault names the first address outside. An attempt to store leaves a
memory behind whether it fails or not, and `putBlock_cases` says that a block that does not fit is
not begun. `getElem_writeBlock` and `getElem_load` say what each byte is after a success.
-/

namespace Chip8

namespace Font

/-- Where the font begins. -/
def address : Nat := 0

/-- The bytes of one glyph, one for each of its rows. -/
def glyphSize : Nat := 5

/-- The glyphs of the digits `0` to `F`. -/
def glyphs : List UInt8 := [
  0xF0, 0x90, 0x90, 0x90, 0xF0,
  0x20, 0x60, 0x20, 0x20, 0x70,
  0xF0, 0x10, 0xF0, 0x80, 0xF0,
  0xF0, 0x10, 0xF0, 0x10, 0xF0,
  0x90, 0x90, 0xF0, 0x10, 0x10,
  0xF0, 0x80, 0xF0, 0x10, 0xF0,
  0xF0, 0x80, 0xF0, 0x90, 0xF0,
  0xF0, 0x10, 0x20, 0x40, 0x40,
  0xF0, 0x90, 0xF0, 0x90, 0xF0,
  0xF0, 0x90, 0xF0, 0x10, 0xF0,
  0xF0, 0x90, 0xF0, 0x90, 0x90,
  0xE0, 0x90, 0xE0, 0x90, 0xE0,
  0xF0, 0x80, 0x80, 0x80, 0xF0,
  0xE0, 0x90, 0x90, 0x90, 0xE0,
  0xF0, 0x80, 0xF0, 0x80, 0xF0,
  0xF0, 0x80, 0xF0, 0x80, 0x80]

end Font

namespace Program

/-- Where a program is loaded and starts. -/
def start : Nat := 512

/-- The bytes from the start of the program to the end of memory. -/
def capacity : Nat := 3584

/-- How many bytes of a program are loaded. -/
def loadedSize (program : List UInt8) : Nat := min program.length capacity

end Program

/-- The bytes of the machine's memory. -/
structure Memory where
  bytes : Vector UInt8 4096
deriving DecidableEq

namespace Memory

/-- The number of bytes. -/
def size : Nat := 4096

/-- Memory that holds the font and is zero elsewhere. -/
def blank : Memory := ⟨overwrite (Vector.replicate 4096 0) Font.address Font.glyphs⟩

/-- The byte at an address. -/
def read (memory : Memory) (address : Nat) : Except Fault UInt8 :=
  match memory.bytes[address]? with
  | some byte => .ok byte
  | none => .error (.outOfMemory address size)

/-- Tries to store one byte. The memory is the one that the attempt leaves behind. -/
def put (memory : Memory) (address : Nat) (byte : UInt8) : Except Fault Unit × Memory :=
  if inside : address < 4096 then (.ok (), ⟨memory.bytes.set address byte⟩)
  else (.error (.outOfMemory address size), memory)

/-- The memory with one byte stored, for a caller that gives it up when that fails. -/
def write (memory : Memory) (address : Nat) (byte : UInt8) : Except Fault Memory :=
  (memory.put address byte).1.map fun _ => (memory.put address byte).2

/-- The `count` bytes from an address on. -/
def readBlock (memory : Memory) (address count : Nat) : Except Fault (List UInt8) :=
  if address + count ≤ size then .ok (memory.bytes.toArray.extract address (address + count)).toList
  else .error (.outOfMemory (max address size) size)

/-- Tries to store a block of bytes from an address on. The memory is the one that the attempt
leaves behind. -/
def putBlock (memory : Memory) (address : Nat) (block : List UInt8) : Except Fault Unit × Memory :=
  if address + block.length ≤ size then (.ok (), ⟨overwrite memory.bytes address block⟩)
  else (.error (.outOfMemory (max address size) size), memory)

/-- The memory with a block stored, for a caller that gives it up when that fails. -/
def writeBlock (memory : Memory) (address : Nat) (block : List UInt8) : Except Fault Memory :=
  (memory.putBlock address block).1.map fun _ => (memory.putBlock address block).2

/-- The instruction word at an address. -/
def word (memory : Memory) (address : Nat) : Except Fault Word :=
  Word.fetch memory.bytes.toArray address

/-- Places a program at its start. What does not fit is dropped. -/
def load (memory : Memory) (program : List UInt8) : Memory :=
  ⟨overwrite memory.bytes Program.start (program.take Program.capacity)⟩

/-- All bytes in order. -/
def toList (memory : Memory) : List UInt8 := memory.bytes.toList

theorem read_of_lt (memory : Memory) {address : Nat} (inside : address < 4096) :
    memory.read address = .ok memory.bytes[address] := by
  simp [read, inside]

theorem read_of_le (memory : Memory) {address : Nat} (outside : 4096 ≤ address) :
    memory.read address = .error (.outOfMemory address size) := by
  simp [read, outside]

section Blocks

variable (memory : Memory) {written : Memory} {address : Nat} {block : List UInt8}

theorem putBlock_of_fits (fits : address + block.length ≤ 4096) :
    memory.putBlock address block = (.ok (), ⟨overwrite memory.bytes address block⟩) :=
  if_pos fits

theorem putBlock_of_beyond (beyond : 4096 < address + block.length) :
    memory.putBlock address block = (.error (.outOfMemory (max address size) size), memory) :=
  if_neg (Nat.not_le.mpr beyond)

theorem writeBlock_of_fits (fits : address + block.length ≤ 4096) :
    memory.writeBlock address block = .ok ⟨overwrite memory.bytes address block⟩ := by
  rw [writeBlock, memory.putBlock_of_fits fits]
  rfl

theorem writeBlock_of_beyond (beyond : 4096 < address + block.length) :
    memory.writeBlock address block = .error (.outOfMemory (max address size) size) := by
  rw [writeBlock, memory.putBlock_of_beyond beyond]
  rfl

/-- A block that does not fit is not begun. -/
theorem putBlock_cases (address : Nat) (block : List UInt8) :
    (∃ written, memory.writeBlock address block = .ok written ∧
      memory.putBlock address block = (.ok (), written)) ∨
    (∃ fault, memory.writeBlock address block = .error fault ∧
      memory.putBlock address block = (.error fault, memory)) := by
  by_cases fits : address + block.length ≤ 4096
  · exact .inl ⟨_, memory.writeBlock_of_fits fits, memory.putBlock_of_fits fits⟩
  · have beyond := Nat.lt_of_not_le fits
    exact .inr ⟨_, memory.writeBlock_of_beyond beyond, memory.putBlock_of_beyond beyond⟩

variable {memory}

theorem fits_of_writeBlock (success : memory.writeBlock address block = .ok written) :
    address + block.length ≤ 4096 := by
  apply Nat.le_of_not_lt
  intro beyond
  rw [memory.writeBlock_of_beyond beyond] at success
  cases success

theorem getElem_writeBlock (success : memory.writeBlock address block = .ok written) (i : Nat)
    (inside : i < 4096) : written.bytes[i] =
      if address ≤ i then block[i - address]?.getD memory.bytes[i] else memory.bytes[i] := by
  rw [memory.writeBlock_of_fits (fits_of_writeBlock success)] at success
  cases success
  exact getElem_overwrite ..

end Blocks

theorem getElem_load (memory : Memory) (program : List UInt8) (i : Nat) (inside : i < 4096) :
    (memory.load program).bytes[i] =
      if 512 ≤ i then (program.take 3584)[i - 512]?.getD memory.bytes[i] else memory.bytes[i] :=
  getElem_overwrite ..

end Memory

end Chip8
