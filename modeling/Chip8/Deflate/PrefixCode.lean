import Chip8.Deflate.Bits

/-! # Canonical prefix codes

A prefix code is given by the length of each symbol's code, zero for a symbol without one. Codes of
one length are consecutive numbers in the order of the symbols, and shorter codes come first.
-/

namespace Chip8.Deflate

/-- A prefix code as a tree; a code leads from the root to its symbol. -/
inductive PrefixCode where
  | unassigned
  | symbol (value : Nat)
  | branch (zero one : PrefixCode)

namespace PrefixCode

/-- Gives a code to a symbol. -/
def insert (value : Nat) : Bits → PrefixCode → PrefixCode
  | [], _ => .symbol value
  | bit :: bits, .branch zero one =>
    if bit then .branch zero (one.insert value bits) else .branch (zero.insert value bits) one
  | bit :: bits, _ =>
    let path := PrefixCode.unassigned.insert value bits
    if bit then .branch .unassigned path else .branch path .unassigned

/-- The longest code. -/
def maxLength : Nat := 15

/-- The first code of a length. -/
def firstCode (lengths : List Nat) : Nat → Nat
  | 0 => 0
  | length + 1 =>
    2 * (firstCode lengths length + if length = 0 then 0 else lengths.count length)

/-- The lowest `length` bits of a code, the highest of them first. -/
def codeBits : (length code : Nat) → Bits
  | 0, _ => []
  | length + 1, code => code.testBit length :: codeBits length code

/-- How many bit strings of the greatest length begin with a code of the given length. -/
def coverage (length : Nat) : Nat := 32768 >>> length

/-- Whether the lengths leave no bit string without a code and give none two of them. -/
def isComplete (lengths : List Nat) : Bool :=
  lengths.foldl (fun covered length => covered + if length = 0 then 0 else coverage length) 0
    == coverage 0

/-- Whether there is no code at all, or a single one of one bit. -/
def isTrivial (lengths : List Nat) : Bool := [[], [1]].contains (lengths.filter (· != 0))

/-- The code without symbols. Reading from it takes a bit before it fails. -/
def empty : PrefixCode := .branch .unassigned .unassigned

/-- Gives out codes to the symbols from `value` on; `next` holds the next code of each length. -/
def assign (tree : PrefixCode) (value : Nat) (next : Array Nat) : List Nat → PrefixCode
  | [] => tree
  | 0 :: lengths => assign tree (value + 1) next lengths
  | length :: lengths =>
    let code := next[length]?.getD 0
    assign (tree.insert value (codeBits length code)) (value + 1)
      (next.setIfInBounds length (code + 1)) lengths

/-- The code with the given lengths. -/
def ofLengths (lengths : List Nat) : PrefixCode :=
  let first := (List.range (maxLength + 1)).map (firstCode lengths)
  assign empty 0 first.toArray lengths

/-- The code with the given lengths, which must be complete. -/
def ofComplete (lengths : List Nat) : Except Error PrefixCode :=
  if isComplete lengths then .ok (ofLengths lengths) else .error .corrupt

/-- The code with the given lengths, which must be complete or trivial. -/
def ofCompleteOrTrivial (lengths : List Nat) : Except Error PrefixCode :=
  if isComplete lengths || isTrivial lengths then .ok (ofLengths lengths) else .error .corrupt

/-- Reads one symbol. -/
def decode : PrefixCode → Bits → Except Error (Nat × Bits)
  | .unassigned, _ => .error .corrupt
  | .symbol value, bits => .ok (value, bits)
  | .branch .., [] => .error .incomplete
  | .branch zero one, bit :: bits => if bit then one.decode bits else zero.decode bits

end PrefixCode

end Chip8.Deflate
