import Chip8.Dump.Hexdump
import Chip8.Machine.Session

/-! # State dumps

The state of a console as text: a title and an indented body for each of its parts. The stack is
printed in full, with zeros where nothing is stored.
-/

namespace Chip8.Dump

/-- A title and the lines under it. -/
def titled (title : String) (body : List (List Char)) : List (List Char) :=
  ('\t' :: title.toList ++ " :".toList) :: body.map fun line => '\t' :: '\t' :: line

/-- A title over a single number. -/
def number (title : String) (value : Nat) : List (List Char) :=
  titled title [Hex.numeral 4 value]

/-- A row of pixels. -/
def pixels (row : List Bool) : List Char := row.map fun lit => if lit then '#' else '.'

/-- The stack from the bottom, filled up with zeros. -/
def stackEntries (machine : Machine) : List Nat :=
  let stored := machine.stackFromBottom.map UInt16.toNat
  stored ++ List.replicate (Machine.stackCapacity - stored.length) 0

/-- The lines of a dump. -/
def lines (console : Console) : List (List Char) :=
  let machine := console.machine
  ["Chipset \x7b".toList]
    ++ titled "Program Name" [console.name.toList]
    ++ number "Program Counter" machine.counter.toNat
    ++ number "Index Register" machine.index.toNat
    ++ number "Delay Timer" machine.delay.value
    ++ number "Sound Timer" machine.sound.value
    ++ titled "Memory" (Hexdump.memoryLines machine.memory.toList)
    ++ titled "Keyboard" (Hexdump.truthLines machine.keypad.toList)
    ++ titled "Stack" (Hexdump.numberLines (stackEntries machine))
    ++ titled "Register" (Hexdump.numberLines (machine.registers.toList.map UInt8.toNat))
    ++ titled "Display" (machine.screen.rows.toList.map fun row => pixels row.toList)
    ++ ["\x7d".toList]

/-- The characters of a dump. -/
def characters (console : Console) : List Char := ['\n'].intercalate (lines console)

end Chip8.Dump

/-- The text of a dump, without a final line break. -/
def Chip8.Console.dump (console : Console) : String := String.ofList (Dump.characters console)
