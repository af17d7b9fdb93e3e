import Chip8.Word

/-! # Hexadecimal tables

Numbers are printed eight to the line behind the range of their positions. In a dump of memory the
entries are words of two bytes, and neighbouring lines of zeros are folded into one row.
`flatten_groupsOf` says that no entry is lost or moved when a table is cut into lines.
-/

namespace Chip8

/-- The entries in groups of `size`, the last one possibly smaller. -/
def groupsOf {α : Type} (size : Nat) : List α → List (List α)
  | [] => []
  | entry :: entries =>
    (entry :: entries.take (size - 1)) :: groupsOf size (entries.drop (size - 1))
termination_by entries => entries.length
decreasing_by simp only [List.length_cons, List.length_drop]; omega

theorem flatten_groupsOf {α : Type} (size : Nat) (entries : List α) :
    (groupsOf size entries).flatten = entries := by
  fun_induction groupsOf size entries with
  | case1 => rfl
  | case2 entry entries ih => simp [ih, List.take_append_drop]

namespace Hexdump

/-- The entries of one line. -/
def lineEntries : Nat := 8

/-- The bytes of one line of words. -/
def lineBytes : Nat := lineEntries * Word.size

/-- The range in front of a line, both ends included. -/
def range (first last : Nat) : List Char :=
  Hex.numeral 4 first ++ " - ".toList ++ Hex.numeral 4 last ++ " :".toList

/-- The numbers of a line, each behind a blank. -/
def entries (values : List Nat) : List Char :=
  values.flatMap fun value => ' ' :: Hex.numeral 4 value

/-- The big-endian words of some bytes. -/
def wordsOf : List UInt8 → List Word
  | high :: low :: bytes => Word.ofBytes high low :: wordsOf bytes
  | [byte] => [byte.toUInt16]
  | [] => []

/-- A row of a memory dump. -/
structure Row where
  /-- The address of its first byte. -/
  first : Nat
  /-- The address of its last byte. -/
  last : Nat
  /-- The words of its last line. -/
  words : List Word
deriving DecidableEq

namespace Row

/-- Whether there are only zeros in a row. -/
def isZero (row : Row) : Bool := row.words.all (· == 0)

/-- What stands for the words of a row of zeros. -/
def filler : List Char :=
  let gap := List.replicate 20 ' '
  ' ' :: Hex.numeral 4 0 ++ gap ++ "...".toList ++ gap ++ Hex.numeral 4 0

/-- The text of a row. -/
def text (row : Row) : List Char :=
  range row.first row.last ++
    if row.isZero then filler else entries (row.words.map UInt16.toNat)

end Row

/-- One row for each line, the first of them at an address. -/
def linesFrom (address : Nat) : List (List UInt8) → List Row
  | [] => []
  | line :: lines =>
    ⟨address, address + line.length - 1, wordsOf line⟩ :: linesFrom (address + line.length) lines

/-- Puts a row in front of others; two rows of zeros become one. -/
def join (row : Row) : List Row → List Row
  | [] => [row]
  | next :: rows =>
    if row.isZero && next.isZero then { next with first := row.first } :: rows
    else row :: next :: rows

/-- The rows of a memory image. -/
def rows (bytes : List UInt8) : List Row :=
  (linesFrom 0 (groupsOf lineBytes bytes)).foldr join []

/-- The lines of a memory image. -/
def memoryLines (bytes : List UInt8) : List (List Char) := (rows bytes).map Row.text

/-- The lines of a table whose positions are counted from `position`. -/
def tableFrom {α : Type} (cells : List α → List Char) (position : Nat) :
    List (List α) → List (List Char)
  | [] => []
  | group :: groups =>
    (range position (position + group.length - 1) ++ cells group) ::
      tableFrom cells (position + group.length) groups

/-- The lines of a list of numbers. -/
def numberLines (values : List Nat) : List (List Char) :=
  tableFrom entries 0 (groupsOf lineEntries values)

/-- The two truth values as text. -/
def truth (value : Bool) : List Char := if value then "true".toList else "false".toList

/-- Truth values padded to the width of a number, except for the last one. -/
def truths : List Bool → List Char
  | [] => []
  | [value] => ' ' :: truth value
  | value :: values =>
    ' ' :: truth value ++ (if value then "  ".toList else " ".toList) ++ truths values

/-- The lines of a list of truth values. -/
def truthLines (values : List Bool) : List (List Char) :=
  tableFrom truths 0 (groupsOf lineEntries values)

end Hexdump

end Chip8
