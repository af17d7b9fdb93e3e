import Chip8.Keypad
import Chip8.Memory
import Chip8.Random
import Chip8.Screen

/-! # The machine

The complete state of a machine, the values it starts from, and the changes that its surroundings
may make between cycles. Its two timers count down from the values that they were given and stay at
zero. They are driven from outside, one tick per rendered frame. Its dialect answers the three
questions on which interpreters of this machine disagree.
-/

namespace Chip8

/-- The answers that an interpreter gives. -/
structure Dialect where
  /-- The shifts work on `VX` in place; otherwise they shift `VY` into `VX`. -/
  shiftInPlace : Bool
  /-- Storing and filling registers leaves `I` behind the last byte touched. -/
  advanceIndex : Bool
  /-- The offset jump adds `VX`, with `X` the top digit of its address, instead of `V0`. -/
  offsetByX : Bool
deriving DecidableEq, Repr

namespace Dialect

/-- What most programs written today expect. -/
def standard : Dialect where
  shiftInPlace := true
  advanceIndex := false
  offsetByX := false

/-- The dialect of the COSMAC VIP. -/
def cosmac : Dialect where
  shiftInPlace := false
  advanceIndex := true
  offsetByX := false

/-- The dialect of the SUPER-CHIP interpreters. -/
def superChip : Dialect where
  shiftInPlace := true
  advanceIndex := false
  offsetByX := true

end Dialect

/-- A countdown. -/
structure Timer where
  value : Nat
deriving DecidableEq, Repr

namespace Timer

/-- The ticks in one second. -/
def hertz : Nat := 60

/-- A timer that has run down. -/
def zero : Timer := ⟨0⟩

/-- Counts down by one, stopping at zero. -/
def tick (timer : Timer) : Timer := ⟨timer.value - 1⟩

/-- Whether the timer is still running. -/
def isActive (timer : Timer) : Bool := timer.value != 0

@[simp] theorem value_tick (timer : Timer) : timer.tick.value = timer.value - 1 := rfl

end Timer

/-- The state of a machine. -/
structure Machine where
  /-- The registers `V0` to `VF`. The last one doubles as the flag. -/
  registers : Vector UInt8 16
  /-- The address register `I`. -/
  index : UInt16
  /-- The address of the next instruction. -/
  counter : UInt16
  /-- The return addresses, the latest call first. -/
  stack : List UInt16
  delay : Timer
  sound : Timer
  keypad : Keypad
  /-- The register that a wait for a key will fill. -/
  awaiting : Option Register
  dialect : Dialect
  random : Random
  memory : Memory
  screen : Screen

namespace Machine

/-- The number of registers. -/
def registerCount : Nat := 16

/-- The register that holds carries, borrows and collisions. -/
def flagRegister : Register := nibble 15

/-- The number of return addresses that fit on the stack. -/
def stackCapacity : Nat := 16

/-- The cycles run in one second. -/
def hertz : Nat := 500

/-- The cycles run in one rendered frame. -/
def cyclesPerFrame : Nat := hertz / Timer.hertz

/-- A machine with everything at zero and the counter at the start of the program. -/
def fresh (dialect : Dialect) (random : Random) : Machine where
  registers := Vector.replicate 16 0
  index := 0
  counter := UInt16.ofNat Program.start
  stack := []
  delay := .zero
  sound := .zero
  keypad := .released
  awaiting := none
  dialect := dialect
  random := random
  memory := .blank
  screen := .blank

/-- A fresh machine with a program in memory. -/
def boot (dialect : Dialect) (random : Random) (program : List UInt8) : Machine :=
  { fresh dialect random with memory := Memory.blank.load program }

/-- The value of one register. -/
def register (machine : Machine) (x : Register) : UInt8 := machine.registers.get x

/-- Writes one register. -/
def setRegister (machine : Machine) (x : Register) (value : UInt8) : Machine :=
  { machine with registers := machine.registers.set x value }

theorem register_eq_getElem (machine : Machine) (x : Register) :
    machine.register x = machine.registers[x.val] := rfl

theorem register_setRegister (machine : Machine) (x y : Register) (value : UInt8) :
    (machine.setRegister x value).register y = if x = y then value else machine.register y := by
  rw [register_eq_getElem, register_eq_getElem, setRegister, Vector.getElem_set]
  simp [Fin.ext_iff]

/-- Writes one for true and zero for false into the flag register. -/
def setFlag (machine : Machine) (flag : Bool) : Machine :=
  machine.setRegister flagRegister (if flag then 1 else 0)

/-- Writes the address register. -/
def setIndex (machine : Machine) (address : UInt16) : Machine := { machine with index := address }

/-- Writes the counter. -/
def setCounter (machine : Machine) (address : UInt16) : Machine :=
  { machine with counter := address }

/-- Presses or releases one key. -/
def setKey (machine : Machine) (key : Nat) (down : Bool) : Machine :=
  { machine with keypad := machine.keypad.set key down }

/-- Replaces the whole keypad by a snapshot. -/
def setKeys (machine : Machine) (keys : List Bool) : Machine :=
  { machine with keypad := .ofList keys }

/-- Counts both timers down by one. -/
def tick (machine : Machine) : Machine :=
  { machine with delay := machine.delay.tick, sound := machine.sound.tick }

/-- The stack with the earliest call first. -/
def stackFromBottom (machine : Machine) : List UInt16 := machine.stack.reverse

end Machine

end Chip8
