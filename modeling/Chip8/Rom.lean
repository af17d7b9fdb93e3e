import Chip8.Deflate.Bits
import Chip8.Memory

/-! # Roms and why there is none

A rom is a named program that is never larger than the program space. A rom from a file is named
after the last component of its path. The errors are everything that can go wrong between a path or
an archive and a rom.
-/

namespace Chip8

/-- Why a file or an entry could not be read. -/
inductive ReadError where
  | missing
  | notDirectory
  | isDirectory
  | nameTooLong
  /-- A null character is in no name. -/
  | nulInName
  /-- The contents of an entry differ from what its checksum promises. -/
  | badChecksum
  /-- The contents of an entry cannot be decompressed. -/
  | badCompression (cause : Deflate.Error)
deriving DecidableEq, Repr

/-- The text shown to the user. -/
def ReadError.message : ReadError → String
  | .missing => "No such file or directory (os error 2)"
  | .notDirectory => "Not a directory (os error 20)"
  | .isDirectory => "Is a directory (os error 21)"
  | .nameTooLong => "File name too long (os error 36)"
  | .nulInName => "file name contained an unexpected NUL byte"
  | .badChecksum => "Invalid checksum"
  | .badCompression cause => cause.message

/-- Why an archive or one of its entries was refused. -/
inductive ArchiveError where
  | unreadable (cause : ReadError)
  /-- A record reaches past the end of the archive. -/
  | cutShort
  /-- A record reaches past the positions that there are. -/
  | invalidPosition
  /-- There are too few bytes for an end record. -/
  | tooSmall
  | noEndRecord
  | noWideEndRecord
  | noRoomForWideEndRecord
  | severalDisks
  /-- The end record places the directory in front of the archive. -/
  | misplacedDirectory
  /-- The directory begins past the positions that there are. -/
  | unreachableDirectory
  | badDirectoryHeader
  /-- The directory places an entry too far behind. -/
  | positionOverflow
  /-- What an entry says about its cipher has the wrong size. -/
  | badCipherSize
  | badCipherVendor
  | badCipherVersion
  | badCipherStrength
  /-- An entry is under a cipher about which it says nothing. -/
  | unspecifiedCipher
  | noSuchEntry
  | encrypted
  | badEntryHeader
  | unknownMethod
deriving DecidableEq, Repr

/-- The text shown to the user. -/
def ArchiveError.message : ArchiveError → String
  | .unreadable cause => cause.message
  | .cutShort => "failed to fill whole buffer"
  | .invalidPosition => "Invalid argument (os error 22)"
  | .tooSmall => "invalid Zip archive: Invalid zip header"
  | .noEndRecord => "invalid Zip archive: Could not find central directory end"
  | .noWideEndRecord => "invalid Zip archive: Could not find ZIP64 central directory end"
  | .noRoomForWideEndRecord =>
    "invalid Zip archive: File cannot contain ZIP64 central directory end"
  | .severalDisks =>
    "unsupported Zip archive: Support for multi-disk files is not implemented"
  | .misplacedDirectory => "invalid Zip archive: Invalid central directory size or offset"
  | .unreachableDirectory =>
    "invalid Zip archive: Could not seek to start of central directory"
  | .badDirectoryHeader => "invalid Zip archive: Invalid Central Directory header"
  | .positionOverflow => "invalid Zip archive: Archive header is too large"
  | .badCipherSize =>
    "unsupported Zip archive: AES extra data field has an unsupported length"
  | .badCipherVendor => "invalid Zip archive: Invalid AES vendor"
  | .badCipherVersion => "invalid Zip archive: Invalid AES vendor version"
  | .badCipherStrength => "invalid Zip archive: Invalid AES encryption strength"
  | .unspecifiedCipher => "invalid Zip archive: AES encryption without AES extra data field"
  | .noSuchEntry => "specified file not found in archive"
  | .encrypted => "unsupported Zip archive: Password required to decrypt file"
  | .badEntryHeader => "invalid Zip archive: Invalid local file header"
  | .unknownMethod => "unsupported Zip archive: Compression method not supported"

/-- Why there is no rom. -/
inductive LoadError where
  /-- The file or the entry of this name could not be read. -/
  | unreadable (name : String) (cause : ReadError)
  | archive (cause : ArchiveError)
deriving DecidableEq, Repr

/-- The text shown to the user. -/
def LoadError.message : LoadError → String
  | .unreadable name cause => s!"Unable to read the rom '{name}': {cause.message}"
  | .archive cause => s!"Unable to read the rom archive: {cause.message}"

/-- A named program. -/
structure Rom where
  name : String
  program : List UInt8
deriving DecidableEq

namespace Rom

/-- The rom of some bytes. What lies past the program space is dropped. -/
def ofBytes (name : String) (bytes : List UInt8) : Rom := ⟨name, bytes.take Program.capacity⟩

theorem length_program_ofBytes (name : String) (bytes : List UInt8) :
    (ofBytes name bytes).program.length = min bytes.length Program.capacity := by
  simp [ofBytes, Nat.min_comm]

/-- The last component of a path. -/
def nameOfPath (path : String) : String := ((path.splitOn "/").getLast?).getD path

/-- The rom in a file with the given content, or the error with the path as it was given. -/
def ofContent (path : String) (content : Except ReadError (List UInt8)) : Except LoadError Rom :=
  match content with
  | .ok bytes => .ok (.ofBytes (nameOfPath path) bytes)
  | .error cause => .error (.unreadable path cause)

end Rom

end Chip8
