import Mathlib.Data.Finset.SymmDiff
import Mathlib.Data.Fintype.Prod
import Mathlib.Data.List.ProdSigma
import Chip8.Screen

/-! # The screen as a set of pixels

A screen is known by the set of its lit pixels (`Screen.eq_of_litCells_eq`).
`Screen.litCount_eq_card_litCells` counts them, and `Screen.litCount_of_litCells_symmDiff` says how
the count moves when some pixels are inverted.
-/

namespace Chip8

/-- A position on the screen: its row and its column. -/
abbrev Cell := Fin 32 × Fin 64

namespace Screen

open scoped symmDiff

variable {screen other : Screen} {inverted : Finset Cell} {cell : Cell}

/-- The pixels that are lit. -/
def litCells (screen : Screen) : Finset Cell :=
  Finset.univ.filter fun cell => screen.isLit cell.1 cell.2

@[simp] theorem mem_litCells : cell ∈ screen.litCells ↔ screen.isLit cell.1 cell.2 := by
  simp [litCells]

private theorem isLit_eq_get (screen : Screen) (row : Fin 32) (column : Fin 64) :
    screen.isLit row column = (screen.rows.get row).get column :=
  dif_pos ⟨row.isLt, column.isLt⟩

/-- There is no more to a screen than its lit pixels. -/
theorem eq_of_litCells_eq (same : other.litCells = screen.litCells) : other = screen := by
  have lit (row : Fin 32) (column : Fin 64) :
      (other.rows.get row).get column = (screen.rows.get row).get column := by
    have alike : (row, column) ∈ other.litCells ↔ (row, column) ∈ screen.litCells := by rw [same]
    rw [mem_litCells, mem_litCells, isLit_eq_get, isLit_eq_get] at alike
    exact Bool.eq_iff_iff.mpr alike
  have rows : other.rows = screen.rows := by
    ext r visible c inside
    exact lit ⟨r, visible⟩ ⟨c, inside⟩
  exact congrArg Screen.mk rows

private theorem toList_eq_map_get {α : Type} {n : Nat} (entries : Vector α n) :
    entries.toList = (List.finRange n).map entries.get := by
  apply List.ext_getElem
  · simp
  · intro i inside _
    simp [Vector.get]

/-- The stored pixels are those of all positions. -/
theorem flatMap_toList_rows (screen : Screen) :
    screen.rows.toList.flatMap Vector.toList =
      (List.finRange 32 ×ˢ List.finRange 64).map fun cell => screen.isLit cell.1 cell.2 := by
  have stored (row : Fin 32) : (screen.rows.get row).toList =
      (List.finRange 64).map fun column : Fin 64 => screen.isLit row.val column.val := by
    simp only [toList_eq_map_get, isLit_eq_get]
  rw [toList_eq_map_get, List.flatMap_map]
  simp only [stored]
  change _ = (List.product _ _).map _
  simp only [List.product, List.map_flatMap, List.map_map]
  rfl

theorem litCount_eq_card_litCells (screen : Screen) :
    screen.litCount = screen.litCells.card := by
  rw [litCount, flatMap_toList_rows, List.count, List.countP_map, List.countP_eq_length_filter,
    litCells, ← Finset.univ_product_univ, Finset.card_def, Finset.filter_val, Finset.product_val,
    Fin.univ_def, Fin.univ_def, Multiset.coe_product, Multiset.filter_coe, Multiset.coe_card]
  rfl

/-- Inverting pixels turns on the dark ones and turns off the lit ones. -/
theorem litCount_of_litCells_symmDiff (changed : other.litCells = screen.litCells ∆ inverted) :
    (other.litCount : Int) =
      screen.litCount + inverted.card - 2 * (inverted ∩ screen.litCells).card := by
  have off := Finset.card_sdiff_add_card_inter screen.litCells inverted
  have on := Finset.card_sdiff_add_card_inter inverted screen.litCells
  have left : (screen.litCells ∆ inverted).card =
      (screen.litCells \ inverted).card + (inverted \ screen.litCells).card :=
    Finset.card_union_of_disjoint disjoint_sdiff_sdiff
  rw [Finset.inter_comm] at off
  rw [litCount_eq_card_litCells, litCount_eq_card_litCells, changed, left]
  omega

end Screen

end Chip8
