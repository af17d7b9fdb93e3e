import Mathlib.Algebra.Ring.Parity
import Mathlib.Data.List.Induction
import Chip8.Proofs.Pixels

/-! # Flips and clears

The screen only knows flips of single pixels and clears. After any number of them a pixel is lit if
it has been flipped an odd number of times since the last clear; `Screen.flips_since_clear_decide`
derives from this what can be asked about the screen.
-/

namespace Chip8.Screen

/-- A change of the screen. -/
inductive Stroke where
  | flip (row column : Nat)
  | clear
deriving DecidableEq

/-- The screen after one change. -/
def stroke (screen : Screen) : Stroke → Screen
  | .flip row column => (screen.flip row column).2
  | .clear => blank

/-- The screen after some changes, blank at first. -/
def afterStrokes (strokes : List Stroke) : Screen := strokes.foldl stroke blank

/-- How often a position was flipped since the last clear. -/
def flipsSinceClear (strokes : List Stroke) (row column : Nat) : Nat :=
  (strokes.reverse.takeWhile (· ≠ .clear)).count (.flip row column)

/-- The pixels that were flipped an odd number of times since the last clear. -/
def oddCells (strokes : List Stroke) : Finset Cell :=
  Finset.univ.filter fun cell => Odd (flipsSinceClear strokes cell.1 cell.2)

variable {screen : Screen} {strokes : List Stroke} {row column : Nat}

private theorem afterStrokes_concat (strokes : List Stroke) (last : Stroke) :
    afterStrokes (strokes ++ [last]) = (afterStrokes strokes).stroke last := by
  rw [afterStrokes, List.foldl_concat]
  rfl

private theorem flipsSinceClear_concat_flip (strokes : List Stroke) (row column r c : Nat) :
    flipsSinceClear (strokes ++ [.flip row column]) r c =
      flipsSinceClear strokes r c + if row = r ∧ column = c then 1 else 0 := by
  rw [flipsSinceClear, List.reverse_concat, List.takeWhile_cons_of_pos rfl, List.count_cons]
  simp only [beq_iff_eq, Stroke.flip.injEq]
  rfl

private theorem flipsSinceClear_concat_clear (strokes : List Stroke) (r c : Nat) :
    flipsSinceClear (strokes ++ [.clear]) r c = 0 := by
  rw [flipsSinceClear, List.reverse_concat, List.takeWhile_cons_of_neg Bool.false_ne_true]
  rfl

private theorem isLit_blank (row column : Nat) : blank.isLit row column = false := by
  unfold isLit blank
  split
  · simp
  · rfl

/-- Each flip of a pixel turns its parity over and leaves those of the others alone. -/
theorem isLit_afterStrokes (strokes : List Stroke) (inside : row < 32 ∧ column < 64) :
    (afterStrokes strokes).isLit row column ↔ Odd (flipsSinceClear strokes row column) := by
  induction strokes using List.reverseRecOn with
  | nil =>
    change blank.isLit row column ↔ Odd 0
    simp [isLit_blank]
  | append_singleton strokes last ih =>
    rw [afterStrokes_concat]
    cases last with
    | clear =>
      change blank.isLit row column ↔ _
      rw [flipsSinceClear_concat_clear]
      simp [isLit_blank]
    | flip r c =>
      change ((afterStrokes strokes).flip r c).2.isLit row column ↔ _
      rw [isLit_flip, flipsSinceClear_concat_flip]
      by_cases same : r = row ∧ c = column
      · obtain ⟨rfl, rfl⟩ := same
        rw [if_pos ⟨rfl, rfl⟩, Nat.odd_add_one, ← ih]
        simp [inside]
      · have other : ¬ (r = row ∧ c = column ∧ r < 32 ∧ c < 64) := fun all => same ⟨all.1, all.2.1⟩
        rw [if_neg same, decide_eq_false other, Bool.xor_false, Nat.add_zero, ih]

private theorem litCells_afterStrokes (strokes : List Stroke) :
    (afterStrokes strokes).litCells = oddCells strokes := by
  ext cell
  rw [mem_litCells, oddCells, Finset.mem_filter_univ]
  exact isLit_afterStrokes strokes ⟨cell.1.isLt, cell.2.isLt⟩

private theorem litCells_blank : blank.litCells = ∅ := by
  ext cell
  simp [isLit_blank]

/-- A screen without a lit pixel is the blank one. -/
theorem eq_blank_iff (screen : Screen) : screen = blank ↔ screen.litCount = 0 := by
  rw [litCount_eq_card_litCells, Finset.card_eq_zero, ← litCells_blank]
  constructor
  · rintro rfl
    rfl
  · exact eq_of_litCells_eq

/-- The screen after any flips and clears, at any positions.

It has 32 rows of 64 pixels. A pixel is lit exactly if it was flipped an odd number of times since
the last clear, and nothing is lit outside. One more flip of a pixel tells whether it was lit, and a
flip outside tells nothing and changes nothing. The lit pixels are as many as those with an odd
number of flips, and if there are none, then the screen is as it was at first. -/
theorem flips_since_clear_decide (strokes : List Stroke) :
    let screen := afterStrokes strokes
    (screen.rows.toList.length = 32 ∧ ∀ row ∈ screen.rows.toList, row.toList.length = 64) ∧
    (∀ cell : Cell, screen.isLit cell.1 cell.2 ↔ Odd (flipsSinceClear strokes cell.1 cell.2)) ∧
    (∀ row column : Nat,
      if row < 32 ∧ column < 64 then
        (screen.flip row column).1 = some (decide (Odd (flipsSinceClear strokes row column)))
      else screen.isLit row column = false ∧ screen.flip row column = (none, screen)) ∧
    screen.litCount = (oddCells strokes).card ∧
    (screen = blank ↔ screen.litCount = 0) := by
  intro screen
  refine ⟨⟨Vector.length_toList, fun _ _ => Vector.length_toList⟩, ?_, ?_, ?_,
    eq_blank_iff screen⟩
  · intro cell
    exact isLit_afterStrokes strokes ⟨cell.1.isLt, cell.2.isLt⟩
  · intro row column
    split
    next inside =>
      rw [flip_fst, if_pos inside, ← Bool.decide_coe (screen.isLit row column)]
      exact congrArg some (decide_eq_decide.mpr (isLit_afterStrokes strokes inside))
    next outside => exact ⟨screen.isLit_of_outside outside, screen.flip_of_outside outside⟩
  · rw [litCount_eq_card_litCells, litCells_afterStrokes]

end Chip8.Screen
