import Chip8.Instruction.Description
import Chip8.Keypad
import Chip8.Rom

/-! # Logged events

What the machine and its loader report while they work, each with a level and one line of text.
Programs, keys and snapshots of the wrong size are cut to size and never refused; a warning says so.
-/

namespace Chip8

/-- How much a reader of the log should care. -/
inductive Level where
  | trace
  | debug
  | info
  | warn
deriving DecidableEq, Repr

/-- The name that stands in front of a logged line. -/
def Level.name : Level → String
  | .trace => "TRACE"
  | .debug => "DEBUG"
  | .info => "INFO"
  | .warn => "WARN"

/-- Something worth a line in the log. -/
inductive Event where
  /-- A word was decoded and is about to take effect. -/
  | executing (word : Word) (instruction : Instruction)
  /-- A word outside the language was passed over. -/
  | skipped (error : DecodeError)
  /-- A call stored its return address; `depth` counts it. -/
  | pushed (address : UInt16) (depth : Nat)
  /-- A return took its address; `depth` no longer counts it. -/
  | popped (address : UInt16) (depth : Nat)
  /-- The machine begins to wait for a key. -/
  | waiting (x : Register)
  /-- The machine was polled and no key was down. -/
  | stillWaiting (x : Register)
  /-- The awaited key went into its register. -/
  | keyStored (key : Fin 16) (x : Register)
  /-- A key test on a register that holds no key number. -/
  | noSuchKey (x : Register) (value : UInt8)
  /-- A key past the last one was set. -/
  | keyIgnored (key : Nat)
  /-- A snapshot of the keypad had the wrong length. -/
  | snapshotSize (count : Nat)
  /-- A rom was too large for the program space. -/
  | romTruncated (name : String) (size capacity : Nat)
  /-- A program was too large for the program space. -/
  | programTruncated (size capacity : Nat)
  /-- A rom is in memory. -/
  | loaded (name : String) (size : Nat)
deriving DecidableEq

namespace Event

/-- How much the event matters. -/
def level : Event → Level
  | executing .. | pushed .. | popped .. | waiting .. | keyStored .. => .debug
  | stillWaiting .. => .trace
  | loaded .. => .info
  | skipped .. | noSuchKey .. | keyIgnored .. | snapshotSize .. | romTruncated ..
  | programTruncated .. => .warn

/-- The text of the event. -/
def message : Event → String
  | executing word instruction => s!"opcode {Hex.word word.toNat} {instruction.describe}"
  | skipped error => s!"{error.message} Skipping it."
  | pushed address depth => s!"push {Hex.word address.toNat} (depth {depth})"
  | popped address depth => s!"pop {Hex.word address.toNat} (depth {depth})"
  | waiting x => s!"V{Hex.bare x.val} is waiting for a key press"
  | stillWaiting x => s!"V{Hex.bare x.val} is still waiting for a key press"
  | keyStored key x => s!"key {Hex.plain key.val} pressed, storing it in V{Hex.bare x.val}"
  | noSuchKey x value =>
    s!"V{Hex.bare x.val} holds {Hex.plain value.toNat}, which is not a key, "
      ++ "treating it as released."
  | keyIgnored key => s!"Ignoring key {Hex.plain key} outside of the keypad."
  | snapshotSize count => s!"Got {count} keys for a 16 key keypad, copying the overlapping part."
  | romTruncated name size capacity =>
    s!"Rom '{name}' is {size} bytes large, truncating it to {capacity} bytes."
  | programTruncated size capacity =>
    s!"Rom is {size} bytes large, truncating it to {capacity} bytes."
  | loaded name size => s!"Loaded '{name}' ({size} bytes)."

/-- The line that the log shows. -/
def line (event : Event) : String := event.level.name ++ " " ++ event.message

end Event

/-- What making a rom of some bytes reports. -/
def Rom.warnings (name : String) (bytes : List UInt8) : List Event :=
  if Program.capacity < bytes.length then
    [.romTruncated name bytes.length Program.capacity]
  else []

/-- What loading a program into memory reports. -/
def Program.warnings (program : List UInt8) : List Event :=
  if Program.capacity < program.length then
    [.programTruncated program.length Program.capacity]
  else []

/-- What setting one key reports. -/
def Keypad.setWarnings (key : Nat) : List Event :=
  if key < Keypad.size then [] else [.keyIgnored key]

/-- What a snapshot of the keypad reports. -/
def Keypad.snapshotWarnings (keys : List Bool) : List Event :=
  if keys.length = Keypad.size then [] else [.snapshotSize keys.length]

end Chip8
