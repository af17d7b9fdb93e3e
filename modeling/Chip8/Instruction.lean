import Chip8.Word

/-! # Instructions

The meaning of each of the 35 instructions as one constructor, and the decoder from words.

A word outside the language is refused. Decoding looks at no more bits than it needs: in group 0
only the low byte counts, and the two comparisons of registers do not read the low nibble.
-/

namespace Chip8

/-- What an `8XY_` instruction computes from `VX` and `VY`. -/
inductive Arithmetic where
  | assign
  | or
  | and
  | xor
  | add
  /-- The difference `VX - VY`. -/
  | sub
  | shiftRight
  /-- The difference `VY - VX`. -/
  | subReverse
  | shiftLeft
deriving DecidableEq, Repr

/-- A decoded instruction. -/
inductive Instruction where
  /-- Turn every pixel off. -/
  | clear
  /-- Continue behind the call on top of the stack. -/
  | ret
  | jump (target : UInt16)
  | call (target : UInt16)
  /-- Skip the next instruction when `VX` equals `value`. -/
  | skipEqual (x : Register) (value : UInt8)
  /-- Skip the next instruction when `VX` differs from `value`. -/
  | skipNotEqual (x : Register) (value : UInt8)
  /-- Skip the next instruction when `VX` equals `VY`. -/
  | skipSame (x y : Register)
  | set (x : Register) (value : UInt8)
  /-- Add `value` to `VX` without touching the flag. -/
  | add (x : Register) (value : UInt8)
  | arithmetic (operation : Arithmetic) (x y : Register)
  /-- Skip the next instruction when `VX` differs from `VY`. -/
  | skipDifferent (x y : Register)
  | setIndex (target : UInt16)
  /-- Jump to `target` plus `V0`, or plus `VX` where the dialect says so. -/
  | jumpOffset (x : Register) (target : UInt16)
  /-- Set `VX` to a random byte masked by `mask`. -/
  | random (x : Register) (mask : UInt8)
  /-- Draw the `height` byte sprite at `I` with its corner at `(VX, VY)`. -/
  | draw (x y : Register) (height : Fin 16)
  /-- Skip the next instruction when the key `VX` is down. -/
  | skipPressed (x : Register)
  /-- Skip the next instruction when the key `VX` is up. -/
  | skipReleased (x : Register)
  | readDelay (x : Register)
  /-- Wait for a key and store its number in `VX`. -/
  | awaitKey (x : Register)
  | setDelay (x : Register)
  | setSound (x : Register)
  /-- Add `VX` to `I`. -/
  | addIndex (x : Register)
  /-- Point `I` to the glyph of `VX`. -/
  | glyph (x : Register)
  /-- Write the three decimal digits of `VX` at `I`. -/
  | decimal (x : Register)
  /-- Copy `V0` to `VX` into memory at `I`. -/
  | store (x : Register)
  /-- Copy memory at `I` into `V0` to `VX`. -/
  | fill (x : Register)
deriving DecidableEq, Repr

/-- Why a word could not be decoded. -/
inductive DecodeError where
  | unsupported (word : Word)
deriving DecidableEq, Repr

/-- The text shown to the user. -/
def DecodeError.message : DecodeError → String
  | .unsupported word => s!"An unsupported opcode was used {Hex.word word.toNat}."

/-- The operation that the low nibble of an `8XY_` word selects. -/
def Arithmetic.ofNibble? : Fin 16 → Option Arithmetic
  | 0x0 => some .assign
  | 0x1 => some .or
  | 0x2 => some .and
  | 0x3 => some .xor
  | 0x4 => some .add
  | 0x5 => some .sub
  | 0x6 => some .shiftRight
  | 0x7 => some .subReverse
  | 0xE => some .shiftLeft
  | _ => none

namespace Instruction

/-- Group 0 is selected by the low byte alone. -/
def ofSystem? (selector : UInt8) : Option Instruction :=
  match selector with
  | 0xE0 => some .clear
  | 0xEE => some .ret
  | _ => none

/-- The key tests of group E, selected by the low byte. -/
def ofKeyTest? (x : Register) (selector : UInt8) : Option Instruction :=
  match selector with
  | 0x9E => some (.skipPressed x)
  | 0xA1 => some (.skipReleased x)
  | _ => none

/-- Timers, input and memory, group F, selected by the low byte. -/
def ofMisc? (x : Register) (selector : UInt8) : Option Instruction :=
  match selector with
  | 0x07 => some (.readDelay x)
  | 0x0A => some (.awaitKey x)
  | 0x15 => some (.setDelay x)
  | 0x18 => some (.setSound x)
  | 0x1E => some (.addIndex x)
  | 0x29 => some (.glyph x)
  | 0x33 => some (.decimal x)
  | 0x55 => some (.store x)
  | 0x65 => some (.fill x)
  | _ => none

/-- The instruction that a word stands for, if there is one. -/
def ofWord? (word : Word) : Option Instruction :=
  match word.group with
  | 0x0 => ofSystem? word.nn
  | 0x1 => some (.jump word.nnn)
  | 0x2 => some (.call word.nnn)
  | 0x3 => some (.skipEqual word.x word.nn)
  | 0x4 => some (.skipNotEqual word.x word.nn)
  | 0x5 => some (.skipSame word.x word.y)
  | 0x6 => some (.set word.x word.nn)
  | 0x7 => some (.add word.x word.nn)
  | 0x8 => (Arithmetic.ofNibble? word.n).map (.arithmetic · word.x word.y)
  | 0x9 => some (.skipDifferent word.x word.y)
  | 0xA => some (.setIndex word.nnn)
  | 0xB => some (.jumpOffset word.x word.nnn)
  | 0xC => some (.random word.x word.nn)
  | 0xD => some (.draw word.x word.y word.n)
  | 0xE => ofKeyTest? word.x word.nn
  | _ => ofMisc? word.x word.nn

/-- Decodes a word; a refused word is named by the error. -/
def decode (word : Word) : Except DecodeError Instruction :=
  match ofWord? word with
  | some instruction => .ok instruction
  | none => .error (.unsupported word)

end Instruction

end Chip8
