/-! # Bit strings

Compressed data is a string of bits: the bytes in order, the low bit of each first. Numbers are
stored low bit first as well. Data that ends too early is told apart from data that breaks the rules
of the format. A fault in front of the end counts, even if the data ends too early as well.
-/

namespace Chip8.Deflate

/-- Why compressed data cannot be decompressed. -/
inductive Error where
  /-- The data ends before its last block does. -/
  | incomplete
  /-- The data breaks the rules of the format. -/
  | corrupt
deriving DecidableEq, Repr

/-- The text shown to the user. -/
def Error.message : Error → String
  | .incomplete => "incomplete deflate stream"
  | .corrupt => "corrupt deflate stream"

/-- What is left of a string of bits. -/
abbrev Bits := List Bool

namespace Bits

/-- The bits of some bytes. -/
def ofBytes (bytes : List UInt8) : Bits :=
  bytes.flatMap fun byte => (List.range 8).map byte.toNat.testBit

/-- Takes a number of the given width. -/
def number : (width : Nat) → Bits → Except Error (Nat × Bits)
  | 0, bits => .ok (0, bits)
  | _ + 1, [] => .error .incomplete
  | width + 1, bit :: bits =>
    (number width bits).map fun (high, rest) => (2 * high + bit.toNat, rest)

/-- Drops what is left of a byte that has been begun. The string must have started out with whole
bytes. -/
def align (bits : Bits) : Bits := bits.drop (bits.length % 8)

/-- Takes whole bytes. -/
def bytes : (count : Nat) → Bits → Except Error (List UInt8 × Bits)
  | 0, bits => .ok ([], bits)
  | count + 1, bits =>
    match number 8 bits with
    | .error cause => .error cause
    | .ok (byte, rest) =>
      (bytes count rest).map fun (bytes, rest) => (UInt8.ofNat byte :: bytes, rest)

end Bits

end Chip8.Deflate
