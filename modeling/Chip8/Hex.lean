/-! # Nibbles and hexadecimal numerals

Registers, keys and the digits of an instruction are numbers below sixteen. Addresses, words and
registers are written as `0x` and upper-case digits, zero padded to a least width. A number that
needs more digits than the width gets all of them.
-/

namespace Chip8

theorem mod_sixteen_lt (value : Nat) : value % 16 < 16 := Nat.mod_lt value (by decide)

/-- The low four bits of a number. -/
def nibble (value : Nat) : Fin 16 := ⟨value % 16, mod_sixteen_lt value⟩

@[simp] theorem val_nibble (value : Nat) : (nibble value).val = value % 16 := rfl

namespace Hex

/-- The upper-case digit for the lowest nibble of `value`. -/
def digit (value : Nat) : Char :=
  if value % 16 < 10 then Char.ofNat (48 + value % 16) else Char.ofNat (55 + value % 16)

/-- The lowest `width` digits of `value`, most significant first. -/
def lowDigits : (width value : Nat) → List Char
  | 0, _ => []
  | width + 1, value => lowDigits width (value / 16) ++ [digit value]

/-- The number of digits without leading zeros; zero has one. -/
def digitCount (value : Nat) : Nat := value.log2 / 4 + 1

/-- The numeral of `value` with at least `width` digits. -/
def numeral (width value : Nat) : List Char :=
  '0' :: 'x' :: lowDigits (max width (digitCount value)) value

/-- The four digit form of addresses and words. -/
def word (value : Nat) : String := String.ofList (numeral 4 value)

/-- The numeral without padding. -/
def plain (value : Nat) : String := String.ofList (numeral 1 value)

/-- The bare digits without a leading `0x`, as in register names. -/
def bare (value : Nat) : String := String.ofList (lowDigits (digitCount value) value)

@[simp] theorem length_lowDigits (width value : Nat) :
    (lowDigits width value).length = width := by
  induction width generalizing value with
  | zero => rfl
  | succ width ih => simp [lowDigits, ih]

end Hex

end Chip8
