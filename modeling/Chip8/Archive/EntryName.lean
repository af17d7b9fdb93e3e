/-! # Entry names

An archive stores the names of its entries in UTF-8 or in code page 437. In UTF-8, each longest
piece that begins a character but does not complete it, and each byte that cannot begin one, becomes
one replacement character.
-/

namespace Chip8.Archive

/-- The characters of the upper half of code page 437. -/
def codePage437 : Array Char :=
  ("ÇüéâäàåçêëèïîìÄÅÉæÆôöòûùÿÖÜ¢£¥₧ƒáíóúñÑªº¿⌐¬½¼¡«»"
    ++ "░▒▓│┤╡╢╖╕╣║╗╝╜╛┐└┴┬├─┼╞╟╚╔╩╦╠═╬╧╨╤╥╙╘╒╓╫╪┘┌█▄▌▐▀"
    ++ "αßΓπΣσµτΦΘΩδ∞φε∩≡±≥≤⌠⌡÷≈°∙·√ⁿ²■\u00A0").toList.toArray

/-- The text of a name in code page 437. -/
def nameOfCodePage437 (bytes : List UInt8) : List Char :=
  bytes.map fun byte =>
    if byte < 128 then Char.ofNat byte.toNat else codePage437[byte.toNat - 128]?.getD '?'

/-- What stands for bytes that are no character. -/
def replacement : Char := '\uFFFD'

/-- Whether a byte can only continue a character. -/
def isContinuation (byte : UInt8) : Bool := 0x80 ≤ byte && byte ≤ 0xBF

/-- The number of bytes that a character starting with `byte` has, if one can start so. -/
def characterSize? (byte : UInt8) : Option Nat :=
  if byte < 0x80 then some 1
  else if 0xC2 ≤ byte && byte ≤ 0xDF then some 2
  else if 0xE0 ≤ byte && byte ≤ 0xEF then some 3
  else if 0xF0 ≤ byte && byte ≤ 0xF4 then some 4
  else none

/-- Whether `second` may follow `first`: it excludes overlong forms, surrogates and what lies past
the last character. -/
def mayFollow (first second : UInt8) : Bool :=
  if first == 0xE0 then 0xA0 ≤ second && second ≤ 0xBF
  else if first == 0xED then 0x80 ≤ second && second ≤ 0x9F
  else if first == 0xF0 then 0x90 ≤ second && second ≤ 0xBF
  else if first == 0xF4 then 0x80 ≤ second && second ≤ 0x8F
  else isContinuation second

/-- How many of the bytes after `first` belong to its character, at most `wanted`. -/
def followers (first : UInt8) (wanted : Nat) (bytes : List UInt8) : Nat :=
  match wanted, bytes with
  | 0, _ | _, [] => 0
  | wanted + 1, second :: bytes =>
    if mayFollow first second then 1 + ((bytes.take wanted).takeWhile isContinuation).length else 0

/-- The character that a complete sequence of bytes encodes. -/
def characterOf : List UInt8 → Char
  | [a] => Char.ofNat a.toNat
  | [a, b] => Char.ofNat (a.toNat % 32 * 64 + b.toNat % 64)
  | [a, b, c] => Char.ofNat (a.toNat % 16 * 4096 + b.toNat % 64 * 64 + c.toNat % 64)
  | [a, b, c, d] =>
    Char.ofNat (a.toNat % 8 * 262144 + b.toNat % 64 * 4096 + c.toNat % 64 * 64 + d.toNat % 64)
  | _ => replacement

/-- The text of a name in UTF-8. -/
def nameOfUtf8 : List UInt8 → List Char
  | [] => []
  | first :: bytes =>
    match characterSize? first with
    | none => replacement :: nameOfUtf8 bytes
    | some size =>
      let count := followers first (size - 1) bytes
      let character := if count + 1 = size then characterOf (first :: bytes.take count)
        else replacement
      character :: nameOfUtf8 (bytes.drop count)
termination_by bytes => bytes.length
decreasing_by all_goals (simp only [List.length_cons, List.length_drop]; omega)

end Chip8.Archive
