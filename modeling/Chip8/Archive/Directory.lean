import Chip8.Archive.Entry

/-! # Archive directories

The directory at the end of an archive lists its entries. It is found from the end record, which is
searched for backwards because a comment may follow it. Data in front of the archive shifts all
recorded positions by the same amount. Numbers that are too large for the end record are in a wide
end record in front of it.
-/

namespace Chip8.Archive

/-- Where the end record begins: the last place with its signature. -/
def endRecord? (source : Source) : Option Nat :=
  let last := source.bytes.size - 22
  let distances := List.range (min last 65535 + 1)
  let found := distances.find? fun distance =>
    match source.number (last - distance) 4 with
    | .ok signature => signature = 0x06054B50
    | .error _ => false
  found.map (last - ·)

/-- Where the directory is and what it holds. -/
structure Directory where
  /-- How much all positions are shifted. -/
  shift : Nat
  position : Nat
  count : Nat

namespace Directory

/-- Finds the wide end record, at its nominal place or behind it, in some number of places. -/
def findWide (source : Source) (nominal : Nat) : (places position : Nat) →
    Except ArchiveError Directory
  | 0, _ => .error .noWideEndRecord
  | places + 1, position => do
    if (← source.number position 4) = 0x06064B50 then
      let wide ← source.record position 56
      if field wide 16 4 ≠ field wide 20 4 then throw .severalDisks
      let shift := position - nominal
      if lastPosition < field wide 48 8 + shift then throw .misplacedDirectory
      return { shift := shift, position := field wide 48 8 + shift, count := field wide 32 8 }
    else findWide source nominal places (position + 1)

/-- The position of the wide end record, where a locator in front of the end record gives one, and
the disk that the locator names. -/
def locator? (source : Source) (commentSize : Nat) : Option (Nat × Nat) :=
  if source.bytes.size < 42 + commentSize then none
  else
    match source.record (source.bytes.size - (42 + commentSize)) 20 with
    | .error _ => none
    | .ok bytes =>
      if field bytes 0 4 = 0x07064B50 then some (field bytes 8 8, field bytes 4 4) else none

/-- Finds the directory of an archive. -/
def find (source : Source) : Except ArchiveError Directory := do
  if source.bytes.size < 22 then throw .tooSmall
  let some start := endRecord? source | throw .noEndRecord
  let fixed ← source.record start 22
  let commentSize := field fixed 20 2
  let _ ← source.record (start + 22) commentSize
  let disk := field fixed 4 2
  let count := field fixed 8 2
  let size := field fixed 12 4
  let position := field fixed 16 4
  let isWide := [disk, field fixed 6 2, count, field fixed 10 2].contains 0xFFFF
    || size = saturated || position = saturated
  if !isWide && disk ≠ field fixed 6 2 then throw .severalDisks
  match locator? source commentSize with
  | none =>
    if start < size + position then throw .misplacedDirectory
    let shift := start - size - position
    return { shift := shift, position := position + shift, count := count }
  | some (nominal, locatorDisk) =>
    if !isWide && disk ≠ locatorDisk then throw .severalDisks
    if start < 60 then throw .noRoomForWideEndRecord
    findWide source nominal (start - 60 + 1 - nominal) nominal

/-- The entries of an archive, with their positions in the source. -/
def entries (source : Source) : Except ArchiveError (List Entry) := do
  let directory ← find source
  if !source.reaches directory.position then throw .unreachableDirectory
  Entry.readAll source directory.shift directory.count directory.position

end Directory

end Chip8.Archive
