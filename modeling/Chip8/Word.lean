import Chip8.Hex

/-! # Instruction words and faults

An instruction is one big-endian word of two bytes. Its four nibbles are named, from the top,
group, `x`, `y` and `n`; the low byte is `nn` and the low twelve bits are the address `nnn`.

A fault is what ends a cycle, be it that no word can be fetched or that one cannot be executed. None
can be retried: the machine stays where the fault left it, and whoever drives it is expected to
stop.
-/

namespace Chip8

/-- Why a cycle or a memory access failed. -/
inductive Fault where
  /-- The word at the program counter is zero. -/
  | emptyFetch (address : Nat)
  /-- An access past the `size` bytes there are; `address` is the first one outside. -/
  | outOfMemory (address size : Nat)
  /-- A call with every stack entry taken. -/
  | stackOverflow
  /-- A return with nothing on the stack. -/
  | stackUnderflow
deriving DecidableEq, Repr

/-- The text shown to the user. -/
def Fault.message : Fault → String
  | .emptyFetch address => s!"Fetched an all zero instruction at {Hex.word address}."
  | .outOfMemory address size =>
    s!"Memory access at {Hex.word address} is outside of the {size} byte address space."
  | .stackOverflow => "Invalid stack state 'Stack is full!'."
  | .stackUnderflow => "Invalid stack state 'Stack is empty!'."

/-- A raw instruction, not yet decoded. -/
abbrev Word := UInt16

/-- The number of one of the sixteen registers `V0` to `VF`. -/
abbrev Register := Fin 16

namespace Word

/-- The bytes that one instruction takes up. -/
def size : Nat := 2

/-- The top nibble, which selects the family of instructions. -/
def group (word : Word) : Fin 16 := nibble (word.toNat / 4096)

/-- The second nibble, in most families a register. -/
def x (word : Word) : Register := nibble (word.toNat / 256)

/-- The third nibble, in most families a register. -/
def y (word : Word) : Register := nibble (word.toNat / 16)

/-- The low nibble. -/
def n (word : Word) : Fin 16 := nibble word.toNat

/-- The low byte. -/
def nn (word : Word) : UInt8 := UInt8.ofNat word.toNat

/-- The low twelve bits, an address. -/
def nnn (word : Word) : UInt16 := UInt16.ofNat (word.toNat % 4096)

/-- The word made of a high and a low byte. -/
def ofBytes (high low : UInt8) : Word := UInt16.ofNat (256 * high.toNat + low.toNat)

/-- The word stored at `address`; the fault names the first of its two bytes that is missing. -/
def fetch (bytes : Array UInt8) (address : Nat) : Except Fault Word :=
  match bytes[address]?, bytes[address + 1]? with
  | some high, some low => .ok (ofBytes high low)
  | none, _ => .error (.outOfMemory address bytes.size)
  | some _, none => .error (.outOfMemory (address + 1) bytes.size)

theorem toNat_nnn (word : Word) : word.nnn.toNat = word.toNat % 4096 := by
  simp [nnn]; omega

theorem nnn_lt (word : Word) : word.nnn.toNat < 4096 := by
  rw [toNat_nnn]; omega

end Word

end Chip8
