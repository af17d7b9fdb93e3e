import Chip8.Rom

/-! # Records of an archive

An archive consists of records at positions that other records give. Numbers inside of a record are
little-endian; one that is too large for a place of four bytes is stored elsewhere. A position may
lie far behind the end: in memory nothing is there, but a file does not even have all positions.
-/

namespace Chip8.Archive

/-- The little-endian number in some bytes. -/
def littleEndian (bytes : List UInt8) : Nat :=
  bytes.foldr (fun byte high => byte.toNat + 256 * high) 0

/-- A number inside of a record. -/
def field (bytes : List UInt8) (offset size : Nat) : Nat :=
  littleEndian ((bytes.drop offset).take size)

/-- The value of a place of four bytes whose number is stored elsewhere. -/
def saturated : Nat := 0xFFFFFFFF

/-- The greatest position that can be stored. -/
def lastPosition : Nat := 0xFFFFFFFFFFFFFFFF

/-- The greatest position that a file has. -/
def lastFilePosition : Nat := 0x7FFFFFFFFFFFFFFF

/-- Where the bytes of an archive come from. -/
structure Source where
  bytes : Array UInt8
  isFile : Bool

namespace Source

/-- Whether there is such a position, be it behind the end. -/
def reaches (source : Source) (position : Nat) : Bool :=
  !source.isFile || position ≤ lastFilePosition

/-- The bytes of a record; none may be missing. -/
def record (source : Source) (position size : Nat) : Except ArchiveError (List UInt8) :=
  if position + size ≤ source.bytes.size then
    .ok (source.bytes.extract position (position + size)).toList
  else if source.reaches (position + size) then .error .cutShort
  else .error .invalidPosition

/-- The number stored at a position. -/
def number (source : Source) (position size : Nat) : Except ArchiveError Nat :=
  (source.record position size).map littleEndian

end Source

end Chip8.Archive
