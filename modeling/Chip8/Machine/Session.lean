import Chip8.Machine.Frame

/-! # Sessions and consoles

Everything that the owner of a machine can do with it is an action, and a session is a list of
actions. A failing action leaves the machine in the state that the fault left it in, and the session
goes on from there. A console is a machine together with the name of the rom it was started with.
-/

namespace Chip8

/-- Something done with a machine. -/
inductive Action where
  | cycle
  | frame (keys : List Bool) (cycles : Nat)
  | tick
  | setKey (key : Nat) (down : Bool)
  | setKeys (keys : List Bool)
  | setCounter (address : UInt16)
  | setIndex (address : UInt16)
  | setRegister (x : Register) (value : UInt8)
  /-- Overwrite a block of memory. -/
  | poke (address : Nat) (block : List UInt8)
deriving DecidableEq

namespace Machine

/-- Overwrites a block of memory from outside. -/
def poke (machine : Machine) (address : Nat) (block : List UInt8) : Outcome :=
  match machine.memory.putBlock address block with
  | (.ok (), memory) => .done { machine with memory := memory }
  | (.error fault, memory) => .failed fault { machine with memory := memory }

/-- Does one action. -/
def act (machine : Machine) : Action → Reaction
  | .cycle => machine.cycle.unseen
  | .frame keys cycles => machine.frame keys cycles
  | .tick => (Outcome.done machine.tick).unseen
  | .setKey key down =>
    { Outcome.done (machine.setKey key down) with
      events := Keypad.setWarnings key, presentation := none }
  | .setKeys keys =>
    { Outcome.done (machine.setKeys keys) with
      events := Keypad.snapshotWarnings keys, presentation := none }
  | .setCounter address => (Outcome.done (machine.setCounter address)).unseen
  | .setIndex address => (Outcome.done (machine.setIndex address)).unseen
  | .setRegister x value => (Outcome.done (machine.setRegister x value)).unseen
  | .poke address block => (machine.poke address block).unseen

/-- The machine after a session. -/
def after (machine : Machine) (session : List Action) : Machine :=
  session.foldl (fun machine action => (machine.act action).machine) machine

theorem after_append (machine : Machine) (first second : List Action) :
    machine.after (first ++ second) = (machine.after first).after second :=
  List.foldl_append ..

end Machine

/-- A machine and the name of its rom. -/
structure Console where
  name : String
  machine : Machine

namespace Console

/-- A console with a rom in memory. -/
def insert (rom : Rom) (dialect : Dialect) (random : Random) : Console where
  name := rom.name
  machine := .boot dialect random rom.program

/-- What inserting a rom reports. -/
def insertEvents (rom : Rom) : List Event :=
  Program.warnings rom.program ++ [.loaded rom.name (Program.loadedSize rom.program)]

/-- The console after a session. -/
def after (console : Console) (session : List Action) : Console :=
  { console with machine := console.machine.after session }

end Console

end Chip8
