import Chip8.Archive
import Chip8.Machine.Session
import Chip8.Proofs.MemoryTable
import Chip8.Proofs.Transfer

/-! # From a rom to memory

A rom is made of bytes at hand, of a file or of an entry of an archive. `Rom.Origin` treats the
three alike: each of them delivers some bytes or fails. `Rom.Origin.memory_of_delivered` says what
becomes of the bytes: the program of the rom, the whole of memory in a console that has the rom in
it, and the words that the machine will fetch from there.
-/

namespace Chip8

open Hexdump

namespace Memory

variable {memory : Memory} {address : Nat} {word : Word}

private theorem toList_blank : blank.toList = Font.glyphs ++ List.replicate 4016 0 := by
  have fits : Font.address + Font.glyphs.length ≤ 4096 := by decide
  rw [toList, blank, toList_overwrite _ _ _ fits, Vector.toList_replicate, List.drop_replicate]
  rfl

/-- The memory that a program is loaded into: the font, zeros, the program and zeros again. -/
theorem toList_load_blank (program : List UInt8) : (blank.load program).toList =
    Font.glyphs ++ List.replicate 432 0 ++ program.take 3584 ++
      List.replicate (3584 - program.length) 0 := by
  have fits : Program.start + (program.take Program.capacity).length ≤ 4096 := by
    rw [List.length_take, Program.start, Program.capacity]
    omega
  have front : blank.toList.take 512 = Font.glyphs ++ List.replicate 432 0 := by
    rw [toList_blank, List.take_append, List.take_replicate]
    rfl
  have behind : blank.toList.drop (512 + (program.take 3584).length) =
      List.replicate (3584 - program.length) 0 := by
    have size : Font.glyphs.length = 80 := rfl
    have left : 4016 - (512 + (program.take 3584).length - 80) = 3584 - program.length := by
      rw [List.length_take]
      omega
    rw [toList_blank, List.drop_append, List.drop_eq_nil_of_le (by omega), List.nil_append,
      List.drop_replicate, size, left]
  rw [toList, load, toList_overwrite _ _ _ fits, ← toList, Program.start, Program.capacity, front,
    behind]

private theorem holds_load (memory : Memory) (program : List UInt8) :
    (memory.load program).Holds 512 (program.take 3584) := by
  intro k inside
  have bound := inside
  rw [List.length_take] at bound
  rw [Vector.getElem?_eq_getElem (by omega), getElem_load, if_pos (Nat.le_add_right ..),
    Nat.add_sub_cancel_left, List.getElem?_eq_getElem inside]
  rfl

private theorem word_of_holds (holds : memory.Holds address (bytesOf word)) :
    memory.word address = .ok word := by
  have high : memory.bytes[address]? = _ := holds 0 Nat.zero_lt_two
  have low : memory.bytes[address + 1]? = _ := holds 1 Nat.one_lt_two
  rw [Memory.word, Word.fetch, Vector.getElem?_toArray, Vector.getElem?_toArray, high, low]
  exact congrArg Except.ok (ofBytes_bytesOf word)

/-- Words that are stored one behind the other are read back. -/
theorem word_of_holds_flatMap {words : List Word}
    (holds : memory.Holds address (words.flatMap bytesOf)) (k : Nat) (inside : k < words.length) :
    memory.word (address + 2 * k) = .ok words[k] := by
  induction words generalizing address k with
  | nil => contradiction
  | cons word words ih =>
    rw [List.flatMap_cons] at holds
    cases k with
    | zero => exact word_of_holds holds.left
    | succ k =>
      have next : address + 2 * (k + 1) = address + (bytesOf word).length + 2 * k := by
        change _ = address + 2 + 2 * k
        omega
      rw [next, List.getElem_cons_succ]
      exact ih holds.right k (Nat.lt_of_succ_lt_succ inside)

/-- What is dropped of a program of words is whole words. -/
theorem take_flatMap_bytesOf (words : List Word) (count : Nat) :
    (words.flatMap bytesOf).take (2 * count) = (words.take count).flatMap bytesOf := by
  induction words generalizing count with
  | nil => simp
  | cons word words ih =>
    cases count with
    | zero => rfl
    | succ count =>
      have size : 2 * (count + 1) = (bytesOf word).length + 2 * count := by
        change _ = 2 + 2 * count
        omega
      rw [List.flatMap_cons, size, List.take_length_add_append, ih, List.take_succ_cons,
        List.flatMap_cons]

private theorem word_load (memory : Memory) (words : List Word) {k : Nat}
    (inside : k < words.length) (fits : k < 1792) :
    (memory.load (words.flatMap bytesOf)).word (512 + 2 * k) = .ok words[k] := by
  have holds := memory.holds_load (words.flatMap bytesOf)
  rw [show 3584 = 2 * 1792 from rfl, take_flatMap_bytesOf] at holds
  have kept : k < (words.take 1792).length := by
    rw [List.length_take]
    omega
  rw [word_of_holds_flatMap holds k kept, List.getElem_take]

end Memory

namespace Rom

/-- What a rom is made of. -/
inductive Origin where
  /-- Bytes at hand. -/
  | given (name : String) (bytes : List UInt8)
  /-- A file and what reading it gives. -/
  | file (path : String) (content : Except ReadError (List UInt8))
  | entry (archive : Archive) (name : String)

namespace Origin

/-- The name of a rom that is made of it. -/
def romName : Origin → String
  | given name _ | entry _ name => name
  | file path _ => nameOfPath path

/-- The bytes that a rom can be made of, or why there are none. -/
def delivered : Origin → Except LoadError (List UInt8)
  | given _ bytes => .ok bytes
  | file path content => content.mapError (.unreadable path)
  | entry archive name => archive.contents name

/-- The rom, or why there is none. -/
def rom : Origin → Except LoadError Rom
  | given name bytes => .ok (.ofBytes name bytes)
  | file path content => ofContent path content
  | entry archive name => archive.rom name

/-- All that is delivered goes into the rom in the same way, and nothing else does. -/
theorem rom_eq_map_delivered (origin : Origin) :
    origin.rom = origin.delivered.map (.ofBytes origin.romName) := by
  cases origin with
  | given => rfl
  | file path content => cases content <;> rfl
  | entry => rfl

end Origin

/-- The program of a rom fits into memory, so nothing is dropped when it is loaded. -/
theorem insertEvents_ofBytes (name : String) (bytes : List UInt8) :
    Console.insertEvents (ofBytes name bytes) =
      [.loaded name (ofBytes name bytes).program.length] := by
  have size := length_program_ofBytes name bytes
  have fits : ¬ Program.capacity < (ofBytes name bytes).program.length := by omega
  rw [Console.insertEvents, Program.warnings, if_neg fits, Program.loadedSize,
    Nat.min_eq_left (Nat.le_of_not_lt fits)]
  rfl

private theorem load_program_ofBytes (memory : Memory) (name : String) (bytes : List UInt8) :
    memory.load (ofBytes name bytes).program = memory.load bytes := by
  rw [Memory.load, Memory.load, ofBytes, List.take_take, Nat.min_self]

/-- What becomes of the bytes that a rom is made of.

Where nothing is delivered there is no rom. Otherwise the rom has the first 3584 bytes, or all if
there are fewer, and in a console all of them are in memory, behind the font and zeros and in front
of zeros only. No byte is dropped a second time, so the memory is the same as if the bytes had been
loaded as they were. If the bytes are those of some words, then the machine finds the words at
every other address, as many as there is room for. -/
theorem Origin.memory_of_delivered (origin : Origin) (dialect : Dialect) (random : Random) :
    (∀ error, origin.delivered = .error error → origin.rom = .error error) ∧
    ∀ bytes, origin.delivered = .ok bytes → ∃ rom, origin.rom = .ok rom ∧
      rom.name = origin.romName ∧ rom.program = bytes.take 3584 ∧
      rom.program.length = min bytes.length 3584 ∧
      Console.insertEvents rom = [.loaded rom.name rom.program.length] ∧
      let memory := (Console.insert rom dialect random).machine.memory
      memory = Memory.blank.load bytes ∧
      memory.toList = Font.glyphs ++ List.replicate 432 0 ++ bytes.take 3584 ++
        List.replicate (3584 - bytes.length) 0 ∧
      ∀ words : List Word, bytes = words.flatMap bytesOf →
        ∀ (k : Nat) (inside : k < words.length), k < 1792 →
          memory.word (512 + 2 * k) = .ok words[k] := by
  rw [rom_eq_map_delivered]
  refine ⟨?_, ?_⟩
  · intro error failed
    rw [failed]
    rfl
  · intro bytes success
    rw [success]
    have memory : (Console.insert (ofBytes origin.romName bytes) dialect random).machine.memory =
        Memory.blank.load bytes := load_program_ofBytes ..
    refine ⟨ofBytes origin.romName bytes, rfl, rfl, rfl, length_program_ofBytes ..,
      insertEvents_ofBytes .., memory, ?_, ?_⟩
    · rw [memory, Memory.toList_load_blank]
    · rintro words rfl k inside fits
      rw [memory, Memory.word_load _ words inside fits]

/-- The file of a program that is one word too long. -/
def longFile : Origin :=
  .file "roms/LONG.ch8" (.ok ((List.replicate 1793 0x6A01).flatMap bytesOf))

/-- The last word that there is room for is the last word in memory. -/
theorem Origin.memory_of_delivered_longFile :
    longFile.delivered = .ok ((List.replicate 1793 0x6A01).flatMap bytesOf) ∧
      ∃ rom, longFile.rom = .ok rom ∧ rom.program.length = 3584 ∧
        (Console.insert rom .standard (.ofSeed 0)).machine.memory.word 0xFFE = .ok 0x6A01 := by
  have delivered : longFile.delivered = .ok ((List.replicate 1793 0x6A01).flatMap bytesOf) := rfl
  obtain ⟨-, made⟩ := longFile.memory_of_delivered .standard (.ofSeed 0)
  obtain ⟨rom, same, -, -, size, -, -, -, word⟩ := made _ delivered
  have length : ((List.replicate 1793 (0x6A01 : Word)).flatMap bytesOf).length = 3586 := by
    rw [List.length_flatMap, List.map_replicate]
    decide +kernel
  refine ⟨delivered, rom, same, by rw [size, length]; rfl, ?_⟩
  have inside : 1791 < (List.replicate 1793 (0x6A01 : Word)).length := by
    rw [List.length_replicate]
    decide
  have last := word _ rfl 1791 inside (by decide)
  rwa [List.getElem_replicate] at last

end Rom

end Chip8
