import Chip8.Event
import Chip8.Machine

/-! # The effect of an instruction

`Machine.perform` carries out one decoded instruction on a machine whose counter already points
behind it; a flow says how the counter moves on from there. Where an instruction has a result and a
flag, the flag is written last, so that it remains when both go into the flag register.
-/

namespace Chip8

/-- How the counter moves on after an instruction. -/
inductive Flow where
  /-- Go on with the following instruction. -/
  | next
  /-- Pass over the following instruction. -/
  | skip
  | jump (target : UInt16)
deriving DecidableEq, Repr

namespace Flow

/-- A skip under a condition. -/
def skipWhen (condition : Bool) : Flow := if condition then .skip else .next

/-- The counter that a flow leads to. -/
def apply : Flow → UInt16 → UInt16
  | .next, counter => counter
  | .skip, counter => counter + UInt16.ofNat Word.size
  | .jump target, _ => target

/-- The flow as text. -/
def describe : Flow → String
  | .next => "Next"
  | .skip => "Skip"
  | .jump target => s!"Jump({target.toNat})"

end Flow

/-- Moves the counter of a machine on. -/
def Machine.follow (machine : Machine) (flow : Flow) : Machine :=
  { machine with counter := flow.apply machine.counter }

/-- What the surroundings of a machine have to react to after a cycle. -/
inductive Signal where
  | quiet
  /-- The machine waits for a key. -/
  | wait
  /-- The screen was drawn on. -/
  | draw
  /-- The screen was cleared. -/
  | clear
deriving DecidableEq, Repr

/-- What a cycle leaves behind, whether it fails or not. -/
structure Outcome where
  result : Except Fault Signal
  machine : Machine
  /-- What was logged, in order. -/
  events : List Event

namespace Outcome

/-- An uneventful end. -/
def done (machine : Machine) : Outcome := ⟨.ok .quiet, machine, []⟩

/-- An end with a signal. -/
def signalled (signal : Signal) (machine : Machine) : Outcome := ⟨.ok signal, machine, []⟩

/-- An end with a fault. -/
def failed (fault : Fault) (machine : Machine) : Outcome := ⟨.error fault, machine, []⟩

end Outcome

/-- The result of an arithmetic instruction and the flag, if it writes one. The shifts work on
`source`, the others on `vx` and `vy`. -/
def Arithmetic.compute (operation : Arithmetic) (vx vy source : UInt8) : UInt8 × Option Bool :=
  match operation with
  | .assign => (vy, none)
  | .or => (vx ||| vy, none)
  | .and => (vx &&& vy, none)
  | .xor => (vx ^^^ vy, none)
  | .add => (vx + vy, some (256 ≤ vx.toNat + vy.toNat))
  | .sub => (vx - vy, some (vy ≤ vx))
  | .shiftRight => (source >>> 1, some (source.toNat.testBit 0))
  | .subReverse => (vy - vx, some (vx ≤ vy))
  | .shiftLeft => (source <<< 1, some (source.toNat.testBit 7))

/-- The hundreds, tens and ones of a byte. -/
def decimalDigits (value : UInt8) : List UInt8 := [value / 100, value / 10 % 10, value % 10]

namespace Machine

/-- Writes the result of an arithmetic instruction, then its flag. -/
def performArithmetic (machine : Machine) (operation : Arithmetic) (x y : Register) : Machine :=
  let vx := machine.register x
  let vy := machine.register y
  let source := if machine.dialect.shiftInPlace then vx else vy
  match operation.compute vx vy source with
  | (result, none) => machine.setRegister x result
  | (result, some flag) => (machine.setRegister x result).setFlag flag

/-- Skips the next instruction if the key `VX` is down, or up, as wanted. A number past the last key
counts as a key that is up. -/
def testKey (machine : Machine) (x : Register) (wanted : Bool) : Outcome :=
  let value := machine.register x
  match machine.keypad.isPressed? value.toNat with
  | some down => .done (machine.follow (.skipWhen (down == wanted)))
  | none =>
    { Outcome.done (machine.follow (.skipWhen (!wanted))) with events := [.noSuchKey x value] }

/-- Draws the sprite at `I`. The position wraps around the screen, the sprite does not. -/
def drawSprite (machine : Machine) (x y : Register) (height : Nat) : Outcome :=
  let row := (machine.register y).toNat % Screen.height
  let column := (machine.register x).toNat % Screen.width
  match machine.screen.drawSprite machine.memory row column machine.index.toNat height with
  | (.ok hit, screen) => .signalled .draw ({ machine with screen := screen }.setFlag hit)
  | (.error fault, screen) => .failed fault ({ machine with screen := screen }.setFlag false)

/-- Moves `I` behind `count` bytes in the dialects that do so. -/
def advanceIndex (machine : Machine) (count : Nat) : Machine :=
  if machine.dialect.advanceIndex then
    { machine with index := machine.index + UInt16.ofNat count }
  else machine

/-- Writes a block at `I`; `advance` then moves `I` on. -/
def storeBlock (machine : Machine) (block : List UInt8) (advance : Machine → Machine) : Outcome :=
  match machine.memory.putBlock machine.index.toNat block with
  | (.ok (), memory) => .done (advance { machine with memory := memory })
  | (.error fault, memory) => .failed fault { machine with memory := memory }

/-- Fills `V0` to `VX` from memory at `I`. -/
def fillRegisters (machine : Machine) (x : Register) : Outcome :=
  match machine.memory.readBlock machine.index.toNat (x.val + 1) with
  | .ok block =>
    let filled := { machine with registers := overwrite machine.registers 0 block }
    .done (filled.advanceIndex (x.val + 1))
  | .error fault => .failed fault machine

/-- Stores the lowest pressed key in `VX`, or begins to wait for one. -/
def awaitKey (machine : Machine) (x : Register) : Outcome :=
  match machine.keypad.firstPressed? with
  | some key => .done (machine.setRegister x (UInt8.ofNat key.val))
  | none =>
    { result := .ok .wait, machine := { machine with awaiting := some x }, events := [.waiting x] }

/-- Stores the counter on the stack and jumps. -/
def call (machine : Machine) (target : UInt16) : Outcome :=
  if machine.stack.length < stackCapacity then
    let address := machine.counter
    let stack := address :: machine.stack
    { result := .ok .quiet
      machine := { machine with stack := stack }.follow (.jump target)
      events := [.pushed address stack.length] }
  else .failed .stackOverflow machine

/-- Takes the latest return address off the stack and jumps there. -/
def ret (machine : Machine) : Outcome :=
  match machine.stack with
  | [] => .failed .stackUnderflow machine
  | address :: stack =>
    { result := .ok .quiet
      machine := { machine with stack := stack }.follow (.jump address)
      events := [.popped address stack.length] }

/-- Carries out an instruction. -/
def perform (machine : Machine) : Instruction → Outcome
  | .clear => .signalled .clear { machine with screen := .blank }
  | .ret => machine.ret
  | .jump target => .done (machine.follow (.jump target))
  | .call target => machine.call target
  | .skipEqual x value => .done (machine.follow (.skipWhen (machine.register x == value)))
  | .skipNotEqual x value => .done (machine.follow (.skipWhen (machine.register x != value)))
  | .skipSame x y =>
    .done (machine.follow (.skipWhen (machine.register x == machine.register y)))
  | .set x value => .done (machine.setRegister x value)
  | .add x value => .done (machine.setRegister x (machine.register x + value))
  | .arithmetic operation x y => .done (machine.performArithmetic operation x y)
  | .skipDifferent x y =>
    .done (machine.follow (.skipWhen (machine.register x != machine.register y)))
  | .setIndex target => .done (machine.setIndex target)
  | .jumpOffset x target =>
    let offset := machine.register (if machine.dialect.offsetByX then x else nibble 0)
    .done (machine.follow (.jump (target + offset.toUInt16)))
  | .random x mask =>
    let (byte, random) := machine.random.next
    .done ({ machine with random := random }.setRegister x (mask &&& byte))
  | .draw x y height => machine.drawSprite x y height.val
  | .skipPressed x => machine.testKey x true
  | .skipReleased x => machine.testKey x false
  | .readDelay x => .done (machine.setRegister x (UInt8.ofNat machine.delay.value))
  | .awaitKey x => machine.awaitKey x
  | .setDelay x => .done { machine with delay := ⟨(machine.register x).toNat⟩ }
  | .setSound x => .done { machine with sound := ⟨(machine.register x).toNat⟩ }
  | .addIndex x =>
    let vx := machine.register x
    .done ((machine.setIndex (machine.index + vx.toUInt16)).setFlag
      (255 < machine.index.toNat + vx.toNat))
  | .glyph x =>
    .done (machine.setIndex
      (UInt16.ofNat (Font.address + Font.glyphSize * (machine.register x).toNat)))
  | .decimal x => machine.storeBlock (decimalDigits (machine.register x)) id
  | .store x =>
    machine.storeBlock (machine.registers.toList.take (x.val + 1)) (·.advanceIndex (x.val + 1))
  | .fill x => machine.fillRegisters x

end Machine

end Chip8
