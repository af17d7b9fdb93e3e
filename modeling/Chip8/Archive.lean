import Chip8.Archive.Directory
import Chip8.Deflate
import Chip8.Rom

/-! # Archives of roms

An archive holds named entries, stored as they are or compressed. Of several entries with one name
the last one counts. Of the contents of each entry it keeps a cyclic redundancy check over 32 bits.
-/

namespace Chip8

namespace Archive

/-- The remainder after one more bit. -/
def checksumBit (remainder : UInt32) : UInt32 :=
  if remainder &&& 1 == 1 then (remainder >>> 1) ^^^ 0xEDB88320 else remainder >>> 1

/-- The remainder after one more byte. -/
def checksumByte (remainder : UInt32) (byte : UInt8) : UInt32 :=
  Nat.repeat checksumBit 8 (remainder ^^^ byte.toUInt32)

/-- The checksum of some bytes. -/
def checksum (bytes : List UInt8) : UInt32 := bytes.foldl checksumByte 0xFFFFFFFF ^^^ 0xFFFFFFFF

end Archive

/-- An archive whose directory has been read. -/
structure Archive where
  source : Archive.Source
  entries : List Archive.Entry

namespace Archive

/-- Reads the directory of an archive. -/
def ofSource (source : Source) : Except LoadError Archive :=
  match Directory.entries source with
  | .ok entries => .ok ⟨source, entries⟩
  | .error cause => .error (.archive cause)

/-- The archive in memory. -/
def ofBytes (bytes : List UInt8) : Except LoadError Archive := ofSource ⟨bytes.toArray, false⟩

/-- The archive in a file, or the error with the path as it was given. -/
def ofContent (path : String) (content : Except ReadError (List UInt8)) :
    Except LoadError Archive :=
  match content with
  | .ok bytes => ofSource ⟨bytes.toArray, true⟩
  | .error .isDirectory => .error (.archive (.unreadable .isDirectory))
  | .error cause => .error (.unreadable path cause)

/-- The names of the entries in the order of their characters, each once. -/
def names (archive : Archive) : List String :=
  (archive.entries.map Entry.name).eraseDups.mergeSort fun first second => first ≤ second

/-- The entry of a name. -/
def entry? (archive : Archive) (name : String) : Option Entry :=
  archive.entries.reverse.find? fun entry => entry.name == name

/-- The method number of entries that are stored as they are. -/
def storedMethod : Nat := 0

/-- The method number of compressed entries. -/
def compressedMethod : Nat := 8

/-- The bytes that an archive holds for an entry, found behind the entry's own header. -/
def packed (archive : Archive) (entry : Entry) : Except ArchiveError (List UInt8) := do
  if entry.isEncrypted then throw .encrypted
  if (← archive.source.number entry.position 4) ≠ 0x04034B50 then throw .badEntryHeader
  let header ← archive.source.record entry.position 30
  if entry.method ≠ storedMethod ∧ entry.method ≠ compressedMethod then throw .unknownMethod
  if entry.hasCipher then throw .encrypted
  let start := entry.position + 30 + field header 26 2 + field header 28 2
  return (archive.source.bytes.extract start (start + entry.compressedSize)).toList

/-- The contents of an entry from the bytes held for it. -/
def unpack (entry : Entry) (packed : List UInt8) : Except ReadError (List UInt8) :=
  let contents :=
    if entry.method = compressedMethod then Deflate.inflate packed else .ok packed
  match contents with
  | .error cause => .error (.badCompression cause)
  | .ok contents =>
    if checksum contents = entry.checksum then .ok contents else .error .badChecksum

/-- The contents of the entry of a name. -/
def contents (archive : Archive) (name : String) : Except LoadError (List UInt8) :=
  match archive.entry? name with
  | none => .error (.archive .noSuchEntry)
  | some entry =>
    match archive.packed entry with
    | .error cause => .error (.archive cause)
    | .ok packed =>
      match unpack entry packed with
      | .error cause => .error (.unreadable name cause)
      | .ok contents => .ok contents

/-- The rom of a name. -/
def rom (archive : Archive) (name : String) : Except LoadError Rom :=
  (archive.contents name).map (Rom.ofBytes name)

end Archive

end Chip8
