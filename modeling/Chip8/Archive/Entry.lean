import Chip8.Archive.EntryName
import Chip8.Archive.Record

/-! # Entries

The directory of an archive has a record for each entry, which fixed numbers, a name, extra fields
and a comment make up. An extra field holds numbers that are too large for their places, or tells
that the entry is under a cipher.
-/

namespace Chip8.Archive

/-- What the directory says about an entry. -/
structure Entry where
  name : String
  isEncrypted : Bool
  /-- Whether the entry says what cipher it is under. -/
  hasCipher : Bool
  method : Nat
  checksum : UInt32
  size : Nat
  compressedSize : Nat
  /-- Where the entry's own header begins. -/
  position : Nat
deriving DecidableEq

namespace Entry

/-- A number, or the wide one that takes its place in an extra field. -/
def widen? (value : Nat) (extra : List UInt8) : Option (Nat × List UInt8) :=
  if value = saturated then
    if extra.length < 8 then none else some (field extra 0 8, extra.drop 8)
  else some (value, extra)

/-- Takes over wide numbers in their fixed order, as many as there are. -/
def widenAll (entry : Entry) (extra : List UInt8) : Entry × Option (List UInt8) :=
  match widen? entry.size extra with
  | none => (entry, none)
  | some (size, extra) =>
    let entry := { entry with size := size }
    match widen? entry.compressedSize extra with
    | none => (entry, none)
    | some (compressedSize, extra) =>
      let entry := { entry with compressedSize := compressedSize }
      match widen? entry.position extra with
      | none => (entry, none)
      | some (position, extra) => ({ entry with position := position }, some extra)

/-- The number of bytes that tell the cipher. -/
def cipherSize : Nat := 7

/-- Takes over the cipher: its version, its vendor, its strength, and the method that was applied
before it. -/
def withCipher (entry : Entry) (cipher : List UInt8) : Except ArchiveError Entry :=
  let version := field cipher 0 2
  let strength := field cipher 4 1
  if field cipher 2 2 ≠ 0x4541 then .error .badCipherVendor
  else if version = 0 ∨ 2 < version then .error .badCipherVersion
  else if strength = 0 ∨ 3 < strength then .error .badCipherStrength
  else .ok { entry with hasCipher := true, method := field cipher 5 2 }

/-- Takes over what the extra fields say. Every field has four bytes in front of it, so as many
steps as there are bytes suffice; a field that is cut short ends them. Behind a cipher, as many
bytes as it has are passed over. -/
def withExtra : (steps : Nat) → Entry → List UInt8 → Except ArchiveError Entry
  | 0, entry, _ => .ok entry
  | steps + 1, entry, extra =>
    if extra.length < 4 then .ok entry
    else
      let kind := field extra 0 2
      let size := field extra 2 2
      let body := extra.drop 4
      if kind = 0x0001 then
        match entry.widenAll body with
        | (entry, none) => .ok entry
        | (entry, some rest) =>
          withExtra steps entry (rest.drop (size - (body.length - rest.length)))
      else if kind = 0x9901 then
        if size ≠ cipherSize then .error .badCipherSize
        else if body.length < cipherSize then .ok entry
        else
          match entry.withCipher body with
          | .error cause => .error cause
          | .ok entry => withExtra steps entry (body.drop (cipherSize + size))
      else withExtra steps entry (body.drop size)

/-- The method number of entries under a cipher; the cipher has the method that counts. -/
def cipherMethod : Nat := 99

/-- The entry with its position in the source, which the archive's positions are shifted against. -/
def shifted (entry : Entry) (shift : Nat) : Except ArchiveError Entry :=
  if lastPosition < entry.position + shift then .error .positionOverflow
  else .ok { entry with position := entry.position + shift }

/-- Reads the directory's record at a position; gives the entry and the position behind. -/
def read (source : Source) (shift position : Nat) : Except ArchiveError (Entry × Nat) := do
  if (← source.number position 4) ≠ 0x02014B50 then throw .badDirectoryHeader
  let header ← source.record position 46
  let flags := field header 8 2
  let nameSize := field header 28 2
  let extraSize := field header 30 2
  let next := position + 46 + nameSize + extraSize + field header 32 2
  let texts ← source.record (position + 46) (next - (position + 46))
  let nameBytes := texts.take nameSize
  let extra := (texts.drop nameSize).take extraSize
  let name := if flags.testBit 11 then nameOfUtf8 nameBytes else nameOfCodePage437 nameBytes
  let entry : Entry :=
    { name := String.ofList name
      isEncrypted := flags.testBit 0
      hasCipher := false
      method := field header 10 2
      checksum := UInt32.ofNat (field header 16 4)
      size := field header 24 4
      compressedSize := field header 20 4
      position := field header 42 4 }
  let entry ← entry.withExtra extra.length extra
  if entry.method = cipherMethod ∧ !entry.hasCipher then throw .unspecifiedCipher
  let entry ← entry.shifted shift
  return (entry, next)

/-- Reads a number of records, one behind the other. -/
def readAll (source : Source) (shift : Nat) : (count position : Nat) →
    Except ArchiveError (List Entry)
  | 0, _ => .ok []
  | count + 1, position => do
    let (entry, next) ← read source shift position
    let entries ← readAll source shift count next
    return entry :: entries

end Entry

end Chip8.Archive
