import Chip8.Memory

/-! # The screen

Sixty-four columns by thirty-two rows of pixels that are lit or dark. The only changes are flipping
one pixel and clearing all of them. Positions are given as row, then column, and may lie outside:
nothing is lit there and nothing can be changed.

A sprite is a run of bytes in memory, one for each of its rows, and the highest bit of a byte is its
leftmost pixel. Drawing flips the pixels under the set bits. Rows below the screen are neither drawn
nor read; a row whose byte lies outside of memory ends the drawing, with the rows above it drawn.
-/

namespace Chip8

/-- The pixels, row by row from the top; a row runs from left to right. -/
structure Screen where
  rows : Vector (Vector Bool 64) 32
deriving DecidableEq

namespace Screen

/-- The number of columns. -/
def width : Nat := 64

/-- The number of rows. -/
def height : Nat := 32

/-- The intensity that a lit pixel is painted with. -/
def litIntensity : UInt8 := 255

/-- The intensity that a dark pixel is painted with. -/
def darkIntensity : UInt8 := 0

/-- A screen without a lit pixel. -/
def blank : Screen := ⟨Vector.replicate 32 (Vector.replicate 64 false)⟩

/-- Whether the pixel is lit. -/
def isLit (screen : Screen) (row column : Nat) : Bool :=
  if inside : row < 32 ∧ column < 64 then (screen.rows[row])[column] else false

/-- Inverts one pixel and tells whether it was lit before. A position outside of the screen gives
no answer and changes nothing. -/
def flip (screen : Screen) (row column : Nat) : Option Bool × Screen :=
  if inside : row < 32 ∧ column < 64 then
    let cells := screen.rows[row]
    (some cells[column], ⟨screen.rows.set row (cells.set column (!cells[column]))⟩)
  else (none, screen)

theorem isLit_of_outside (screen : Screen) {row column : Nat}
    (outside : ¬ (row < 32 ∧ column < 64)) : screen.isLit row column = false :=
  dif_neg outside

theorem flip_of_outside (screen : Screen) {row column : Nat}
    (outside : ¬ (row < 32 ∧ column < 64)) : screen.flip row column = (none, screen) :=
  dif_neg outside

/-- The answer of a flip is the pixel's state before it. -/
theorem flip_fst (screen : Screen) (row column : Nat) :
    (screen.flip row column).1 =
      if row < 32 ∧ column < 64 then some (screen.isLit row column) else none := by
  unfold flip isLit
  split <;> rfl

/-- A flip inverts its own pixel and no other; outside of the screen there is none to invert. -/
theorem isLit_flip (screen : Screen) (row column otherRow otherColumn : Nat) :
    (screen.flip row column).2.isLit otherRow otherColumn =
      ((screen.isLit otherRow otherColumn) ^^
        decide (row = otherRow ∧ column = otherColumn ∧ row < 32 ∧ column < 64)) := by
  unfold flip
  split
  next inside =>
    unfold isLit
    by_cases target : otherRow < 32 ∧ otherColumn < 64
    · by_cases sameRow : row = otherRow
      · subst sameRow
        by_cases sameColumn : column = otherColumn <;> simp [inside, target, sameColumn]
      · simp [target, sameRow]
    · have apart : ¬ (row = otherRow ∧ column = otherColumn) := by omega
      simp only [dif_neg target, Bool.false_xor]
      exact (decide_eq_false (by omega)).symm
  next outside =>
    rw [decide_eq_false (by omega), Bool.xor_false]

/-- What a renderer paints the pixel with. -/
def intensity (screen : Screen) (row column : Nat) : UInt8 :=
  if screen.isLit row column then litIntensity else darkIntensity

/-- The number of lit pixels. -/
def litCount (screen : Screen) : Nat :=
  (screen.rows.toList.flatMap Vector.toList).count true

/-- Inverts pixels of one row, one after another, and tells whether any of them was lit when its
turn came. -/
def flipRow (screen : Screen) (row : Nat) : (columns : List Nat) → Bool × Screen
  | [] => (false, screen)
  | column :: columns =>
    let (before, flipped) := screen.flip row column
    let (later, final) := flipped.flipRow row columns
    (before == some true || later, final)

end Screen

/-- The columns under the set bits of a byte whose leftmost pixel is at `column`. -/
def spriteColumns (byte : UInt8) (column : Nat) : List Nat :=
  ((List.range 8).filter fun offset => byte.toNat.testBit (7 - offset)).map (column + ·)

/-- Draws up to `height` rows of the sprite at `address` and tells whether a lit pixel went dark. -/
def Screen.drawSprite (screen : Screen) (memory : Memory) (row column address : Nat) :
    (height : Nat) → Except Fault Bool × Screen
  | 0 => (.ok false, screen)
  | height + 1 =>
    if row < Screen.height then
      match memory.read address with
      | .error fault => (.error fault, screen)
      | .ok byte =>
        let (hit, drawn) := screen.flipRow row (spriteColumns byte column)
        let (below, final) := drawn.drawSprite memory (row + 1) column (address + 1) height
        (below.map (hit || ·), final)
    else (.ok false, screen)

end Chip8
