import Chip8.Machine

/-! # Inspection text

A one-line view of a machine for debugging: every part by name, numbers in decimal. The random
source and the contents of memory are left out.
-/

namespace Chip8

namespace Inspection

/-- A list in brackets. -/
def list {α : Type} (text : α → String) (values : List α) : String :=
  "[" ++ ", ".intercalate (values.map text) ++ "]"

/-- Named fields in braces. An open record ends in dots for what it leaves out. -/
def record (name : String) (fields : List (String × String)) (isOpen : Bool) : String :=
  let parts := fields.map fun (field, value) => field ++ ": " ++ value
  name ++ " \x7b " ++ ", ".intercalate (parts ++ if isOpen then [".."] else []) ++ " \x7d"

/-- A number in decimal. -/
def number (value : Nat) : String := toString value

/-- A truth value as a word. -/
def truth (value : Bool) : String := if value then "true" else "false"

/-- A timer. -/
def countdown (timer : Timer) : String := record "Timer" [("value", number timer.value)] false

/-- The register that a wait will fill, if there is a wait. -/
def pendingWait : Option Register → String
  | none => "None"
  | some x => s!"Some({x.val})"

/-- The answers of a dialect. -/
def answers (dialect : Dialect) : String :=
  record "Quirks"
    [("legacy_shift", truth dialect.shiftInPlace),
      ("load_store_increment", truth dialect.advanceIndex),
      ("jump_with_vx", truth dialect.offsetByX)]
    false

end Inspection

open Inspection in
/-- The processor of a machine. -/
def Machine.inspectProcessor (machine : Machine) : String :=
  record "CpuState"
    [("registers", list (fun value => number value.toNat) machine.registers.toList),
      ("index_register", number machine.index.toNat),
      ("program_counter", number machine.counter.toNat),
      ("stack", list (fun address => number address.toNat) machine.stackFromBottom),
      ("delay_timer", countdown machine.delay),
      ("sound_timer", countdown machine.sound),
      ("keyboard", record "Keyboard" [("keys", list truth machine.keypad.toList)] false),
      ("awaiting_key", pendingWait machine.awaiting),
      ("quirks", answers machine.dialect)]
    true

/-- The memory of a machine, by its size. -/
def Machine.inspectMemory (machine : Machine) : String :=
  Inspection.record "Memory"
    [("len", Inspection.number machine.memory.bytes.toArray.size)] true

end Chip8
