import Chip8.Deflate.PrefixCode

/-! # Decompression

Compressed data is a sequence of blocks: stored bytes, or symbols under a fixed or a transmitted
pair of prefix codes. A symbol is a byte, the end of the block, or a length that together with a
distance repeats earlier output. Output before the beginning counts as zeros. What follows the last
block is ignored. Data that ends too early and data that breaks the rules are told apart.
-/

namespace Chip8.Deflate

/-- Appends `length` bytes that lie `distance` back. -/
def repeatBack (distance : Nat) : (length : Nat) → Array UInt8 → Array UInt8
  | 0, output => output
  | length + 1, output =>
    let byte := if distance ≤ output.size then output[output.size - distance]?.getD 0 else 0
    repeatBack distance length (output.push byte)

/-- The least length and the number of further bits of the length symbols from 257 on. -/
def lengthRanges : Array (Nat × Nat) := #[
  (3, 0), (4, 0), (5, 0), (6, 0), (7, 0), (8, 0), (9, 0), (10, 0), (11, 1), (13, 1), (15, 1),
  (17, 1), (19, 2), (23, 2), (27, 2), (31, 2), (35, 3), (43, 3), (51, 3), (59, 3), (67, 4),
  (83, 4), (99, 4), (115, 4), (131, 5), (163, 5), (195, 5), (227, 5), (258, 0)]

/-- The least distance and the number of further bits of the distance symbols. -/
def distanceRanges : Array (Nat × Nat) := #[
  (1, 0), (2, 0), (3, 0), (4, 0), (5, 1), (7, 1), (9, 2), (13, 2), (17, 3), (25, 3), (33, 4),
  (49, 4), (65, 5), (97, 5), (129, 6), (193, 6), (257, 7), (385, 7), (513, 8), (769, 8),
  (1025, 9), (1537, 9), (2049, 10), (3073, 10), (4097, 11), (6145, 11), (8193, 12), (12289, 12),
  (16385, 13), (24577, 13)]

/-- A number from the range that a symbol selects. -/
def ranged (ranges : Array (Nat × Nat)) (symbol : Nat) (bits : Bits) :
    Except Error (Nat × Bits) := do
  let some (least, width) := ranges[symbol]? | throw .corrupt
  let (offset, bits) ← bits.number width
  return (least + offset, bits)

/-- The symbols of one block. Every symbol takes at least one bit, so as many steps as there are
bits suffice. -/
def symbols (literals distances : PrefixCode) :
    (steps : Nat) → Bits → Array UInt8 → Except Error (Bits × Array UInt8)
  | 0, _, _ => .error .incomplete
  | steps + 1, bits, output => do
    let (symbol, bits) ← literals.decode bits
    if symbol < 256 then symbols literals distances steps bits (output.push (UInt8.ofNat symbol))
    else if symbol = 256 then return (bits, output)
    else
      let (length, bits) ← ranged lengthRanges (symbol - 257) bits
      let (symbol, bits) ← distances.decode bits
      let (distance, bits) ← ranged distanceRanges symbol bits
      symbols literals distances steps bits (repeatBack distance length output)

/-- A block of stored bytes: its length twice, the second time inverted, and the bytes. -/
def storedBlock (bits : Bits) (output : Array UInt8) : Except Error (Bits × Array UInt8) := do
  let (length, bits) ← bits.align.number 16
  let (inverted, bits) ← bits.number 16
  if length + inverted ≠ 65535 then throw .corrupt
  let (bytes, bits) ← bits.bytes length
  return (bits, output ++ bytes)

/-- The code for literals and lengths in a block with fixed codes. -/
def fixedLiterals : PrefixCode :=
  PrefixCode.ofLengths (List.replicate 144 8 ++ List.replicate 112 9 ++ List.replicate 24 7
    ++ List.replicate 8 8)

/-- The code for distances in a block with fixed codes. -/
def fixedDistances : PrefixCode := PrefixCode.ofLengths (List.replicate 32 5)

/-- A block with fixed codes. -/
def fixedBlock (bits : Bits) (output : Array UInt8) : Except Error (Bits × Array UInt8) :=
  symbols fixedLiterals fixedDistances bits.length bits output

/-- The order in which the lengths of the code for code lengths are stored. -/
def lengthOrder : List Nat := [16, 17, 18, 0, 8, 7, 9, 6, 10, 5, 11, 4, 12, 3, 13, 2, 14, 1, 15]

/-- Numbers of three bits. -/
def threeBitNumbers : (count : Nat) → Bits → Except Error (List Nat × Bits)
  | 0, bits => .ok ([], bits)
  | count + 1, bits => do
    let (number, bits) ← bits.number 3
    let (numbers, bits) ← threeBitNumbers count bits
    return (number :: numbers, bits)

/-- Code lengths, the latest first, until there are `total`. Every step adds at least one. -/
def codeLengths (code : PrefixCode) (total : Nat) :
    (steps : Nat) → Bits → List Nat → Except Error (List Nat × Bits)
  | 0, bits, lengths => if lengths.length = total then .ok (lengths, bits) else .error .corrupt
  | steps + 1, bits, lengths =>
    if total ≤ lengths.length then
      if lengths.length = total then .ok (lengths, bits) else .error .corrupt
    else do
      let (symbol, bits) ← code.decode bits
      if symbol < 16 then codeLengths code total steps bits (symbol :: lengths)
      else if symbol = 16 then
        let some previous := lengths.head? | throw .corrupt
        let (more, bits) ← bits.number 2
        codeLengths code total steps bits (List.replicate (3 + more) previous ++ lengths)
      else if symbol = 17 then
        let (more, bits) ← bits.number 3
        codeLengths code total steps bits (List.replicate (3 + more) 0 ++ lengths)
      else
        let (more, bits) ← bits.number 7
        codeLengths code total steps bits (List.replicate (11 + more) 0 ++ lengths)

/-- A block with transmitted codes. -/
def dynamicBlock (bits : Bits) (output : Array UInt8) : Except Error (Bits × Array UInt8) := do
  let (literalCount, bits) ← bits.number 5
  let (distanceCount, bits) ← bits.number 5
  let (orderCount, bits) ← bits.number 4
  let literalCount := literalCount + 257
  let distanceCount := distanceCount + 1
  if 286 < literalCount ∨ 30 < distanceCount then throw .corrupt
  let (stored, bits) ← threeBitNumbers (orderCount + 4) bits
  let lengthAt := fun symbol => ((lengthOrder.zip stored).lookup symbol).getD 0
  let code ← PrefixCode.ofComplete ((List.range 19).map lengthAt)
  let total := literalCount + distanceCount
  let (reversed, bits) ← codeLengths code total total bits []
  let lengths := reversed.reverse
  let literals ← PrefixCode.ofCompleteOrTrivial (lengths.take literalCount)
  let distances ← PrefixCode.ofCompleteOrTrivial (lengths.drop literalCount)
  symbols literals distances bits.length bits output

/-- The blocks up to the last one. Every block takes at least three bits. -/
def blocks : (steps : Nat) → Bits → Array UInt8 → Except Error (Array UInt8)
  | 0, _, _ => .error .incomplete
  | steps + 1, bits, output => do
    let (isLast, bits) ← bits.number 1
    let (kind, bits) ← bits.number 2
    let (bits, output) ←
      match kind with
      | 0 => storedBlock bits output
      | 1 => fixedBlock bits output
      | 2 => dynamicBlock bits output
      | _ => throw .corrupt
    if isLast = 1 then return output else blocks steps bits output

/-- The data that was compressed, if it was compressed correctly. -/
def inflate (compressed : List UInt8) : Except Error (List UInt8) :=
  let bits := Bits.ofBytes compressed
  (blocks bits.length bits #[]).map Array.toList

end Chip8.Deflate
