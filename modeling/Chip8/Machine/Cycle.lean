import Chip8.Machine.Perform

/-! # One cycle

While a wait for a key is pending, a cycle polls the keypad. Otherwise it fetches the word at the
counter, moves the counter behind it and executes the word. A failed fetch changes nothing.
-/

namespace Chip8.Machine

/-- Executes a word that has been fetched. A word outside the language has no effect. -/
def execute (machine : Machine) (word : Word) : Outcome :=
  match Instruction.decode word with
  | .error error => { Outcome.done machine with events := [.skipped error] }
  | .ok instruction =>
    let outcome := machine.perform instruction
    { outcome with events := .executing word instruction :: outcome.events }

/-- Looks for the awaited key. -/
def poll (machine : Machine) (x : Register) : Outcome :=
  match machine.keypad.firstPressed? with
  | some key =>
    { result := .ok .quiet
      machine := { machine.setRegister x (UInt8.ofNat key.val) with awaiting := none }
      events := [.keyStored key x] }
  | none => { result := .ok .wait, machine := machine, events := [.stillWaiting x] }

/-- The word that the machine would execute next, were it not waiting. -/
def fetch (machine : Machine) : Except Fault Word :=
  match machine.memory.word machine.counter.toNat with
  | .error fault => .error fault
  | .ok word => if word = 0 then .error (.emptyFetch machine.counter.toNat) else .ok word

/-- Moves the counter behind the instruction it points to. -/
def advanceCounter (machine : Machine) : Machine :=
  { machine with counter := machine.counter + UInt16.ofNat Word.size }

/-- Runs one cycle. -/
def cycle (machine : Machine) : Outcome :=
  match machine.awaiting with
  | some x => machine.poll x
  | none =>
    match machine.fetch with
    | .error fault => .failed fault machine
    | .ok word => machine.advanceCounter.execute word

end Chip8.Machine
