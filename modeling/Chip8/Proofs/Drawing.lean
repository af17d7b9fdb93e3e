import Chip8.Proofs.Cycle
import Chip8.Proofs.Perform
import Chip8.Proofs.Pixels
import Chip8.Proofs.Sprite

/-! # What a draw instruction does

The set bits of a sprite are a set of pixels, and drawing inverts this set.
`Machine.execute_draw` says so of the draw instruction, together with what it leaves in the flag
register, how the number of lit pixels moves, and which bytes it depends on.
-/

namespace Chip8

/-- The pixels of the screen under the set bits of a sprite. -/
def Memory.spriteCells (memory : Memory) (row column address height : Nat) : Finset Cell :=
  Finset.univ.filter fun cell => memory.spriteBit row column address height cell.1 cell.2

section Sprite

open scoped symmDiff

variable {screen : Screen} {memory : Memory} {row column address height r c : Nat}

namespace Memory

private theorem spriteBit_iff : memory.spriteBit row column address height r c ↔
    (row ≤ r ∧ r < row + height) ∧ (column ≤ c ∧ c < column + 8) ∧
      ∃ byte, memory.bytes[address + (r - row)]? = some byte ∧
        byte.toNat.testBit (7 - (c - column)) := by
  simp only [spriteBit, Bool.and_eq_true, decide_eq_true_iff, Option.any_eq_true, and_assoc]

@[simp] theorem mem_spriteCells {cell : Cell} :
    cell ∈ memory.spriteCells row column address height ↔
      memory.spriteBit row column address height cell.1 cell.2 := by
  simp [spriteCells]

end Memory

namespace Screen

/-- Drawing inverts the pixels under the set bits, also if it fails. -/
theorem litCells_drawSprite (screen : Screen) (memory : Memory)
    (row column address height : Nat) :
    (screen.drawSprite memory row column address height).2.litCells =
      screen.litCells ∆ memory.spriteCells row column address height := by
  ext cell
  have visible : cell.1.val < 32 ∧ cell.2.val < 64 := ⟨cell.1.isLt, cell.2.isLt⟩
  rw [mem_litCells, isLit_drawSprite, decide_eq_true visible, Bool.true_and, Finset.mem_symmDiff,
    mem_litCells, Memory.mem_spriteCells]
  cases screen.isLit cell.1 cell.2 <;> simp

/-- The pixels that a drawing changes, in coordinates. -/
theorem isLit_drawSprite_ne_iff (screen : Screen) :
    (screen.drawSprite memory row column address height).2.isLit r c ≠ screen.isLit r c ↔
      (r < 32 ∧ c < 64) ∧ (row ≤ r ∧ r < row + height) ∧ (column ≤ c ∧ c < column + 8) ∧
        ∃ byte, memory.bytes[address + (r - row)]? = some byte ∧
          byte.toNat.testBit (7 - (c - column)) := by
  have moved (before change : Bool) : (before ^^ change) ≠ before ↔ change := by
    cases before <;> simp
  rw [isLit_drawSprite, moved, Bool.and_eq_true, decide_eq_true_iff, Memory.spriteBit_iff]

theorem isOk_drawSprite_iff :
    (screen.drawSprite memory row column address height).1.isOk ↔
      ∀ i < height, row + i < 32 → address + i < 4096 := by
  cases drawn : (screen.drawSprite memory row column address height).1 with
  | ok hit =>
    refine ⟨fun _ i inSprite visible => Nat.lt_of_not_le fun missing => ?_, fun _ => rfl⟩
    have failed := (drawSprite_eq_error_iff screen memory row column address height _).mpr
      ⟨rfl, i, inSprite, visible, missing⟩
    cases drawn.symm.trans failed
  | error fault =>
    refine ⟨nofun, fun inside => ?_⟩
    obtain ⟨-, i, inSprite, visible, missing⟩ := (drawSprite_eq_error_iff ..).mp drawn
    exact absurd (inside i inSprite visible) (Nat.not_lt.mpr missing)

theorem hit_iff_inter_nonempty {hit : Bool}
    (drawn : (screen.drawSprite memory row column address height).1 = .ok hit) :
    hit ↔ (memory.spriteCells row column address height ∩ screen.litCells).Nonempty := by
  rw [hit_drawSprite drawn]
  constructor
  · rintro ⟨r, c, set, lit⟩
    obtain ⟨visible, inside⟩ := lt_of_isLit lit
    exact ⟨(⟨r, visible⟩, ⟨c, inside⟩), by simp [set, lit]⟩
  · rintro ⟨cell, met⟩
    obtain ⟨set, lit⟩ := Finset.mem_inter.mp met
    exact ⟨cell.1, cell.2, Memory.mem_spriteCells.mp set, mem_litCells.mp lit⟩

end Screen

end Sprite

namespace Machine

open scoped symmDiff

variable {word : Word}

theorem execute_of_group_draw (machine : Machine) (group : word.group = nibble 0xD) :
    machine.execute word =
      { result := (machine.drawing word.x word.y word.n.val).1.map fun _ => .draw
        machine := { machine with screen := (machine.drawing word.x word.y word.n.val).2 }.setFlag
          ((machine.drawing word.x word.y word.n.val).1.toOption.getD false)
        events := [.executing word (.draw word.x word.y word.n)] } := by
  have encodes : word.Encodes (.draw word.x word.y word.n) := ⟨group, rfl, rfl, rfl⟩
  simp only [machine.execute_of_encodes encodes, perform, drawSprite_eq]

/-- A draw instruction inverts the pixels under the set bits of its sprite. The sprite starts at
`I`; its upper left corner is at `VX` and `VY`, which are taken before the instruction and wrap
around the screen, while the pixels do not. The flag tells whether an inverted pixel was lit, also
if it overwrites a coordinate. Nothing else is changed. The instruction fails if and only if a row
on the screen has its byte outside of memory, and bytes of other rows make no difference. -/
theorem execute_draw (machine : Machine) (word : Word) (group : word.group = nibble 0xD) :
    let row := (machine.register word.y).toNat % 32
    let column := (machine.register word.x).toNat % 64
    let address := machine.index.toNat
    let height := word.n.val
    let inverted := machine.memory.spriteCells row column address height
    let lit := machine.screen.litCells
    let outcome := machine.execute word
    (outcome.result.isOk ↔ ∀ i < height, row + i < 32 → address + i < 4096) ∧
      (outcome.result.isOk →
        outcome.result = .ok .draw ∧
          (∀ r c, outcome.machine.screen.isLit r c ≠ machine.screen.isLit r c ↔
            (r < 32 ∧ c < 64) ∧ (row ≤ r ∧ r < row + height) ∧ (column ≤ c ∧ c < column + 8) ∧
              ∃ byte, machine.memory.bytes[address + (r - row)]? = some byte ∧
                byte.toNat.testBit (7 - (c - column))) ∧
          outcome.machine =
            { machine with
              screen := outcome.machine.screen
              registers := machine.registers.set 15 (if (inverted ∩ lit).Nonempty then 1 else 0) } ∧
          (outcome.machine.screen.litCount : Int) =
            machine.screen.litCount + inverted.card - 2 * (inverted ∩ lit).card) ∧
      ∀ other : Memory,
        (∀ i < height, row + i < 32 →
          other.bytes[address + i]? = machine.memory.bytes[address + i]?) →
        { machine with memory := other }.execute word =
          { outcome with machine := { outcome.machine with memory := other } } := by
  intro row column address height inverted lit outcome
  have ran : outcome = _ := machine.execute_of_group_draw group
  have inside_iff : (machine.drawing word.x word.y height).1.isOk ↔
      ∀ i < height, row + i < 32 → address + i < 4096 := Screen.isOk_drawSprite_iff
  refine ⟨?_, ?_, ?_⟩
  · rw [ran, ← inside_iff]
    cases (machine.drawing word.x word.y height).1 <;> rfl
  · intro succeeds
    cases drawn : (machine.drawing word.x word.y height).1 with
    | error fault =>
      rw [ran, drawn] at succeeds
      cases succeeds
    | ok hit =>
      have screen : outcome.machine.screen = (machine.drawing word.x word.y height).2 := by
        rw [ran]
        rfl
      have cells : outcome.machine.screen.litCells = lit ∆ inverted := by
        rw [screen]
        exact Screen.litCells_drawSprite ..
      refine ⟨?_, ?_, ?_, Screen.litCount_of_litCells_symmDiff cells⟩
      · rw [ran, drawn]
        rfl
      · intro r c
        rw [screen]
        exact Screen.isLit_drawSprite_ne_iff machine.screen
      · have flag : (if hit then 1 else 0 : UInt8) = if (inverted ∩ lit).Nonempty then 1 else 0 :=
          if_congr (Screen.hit_iff_inter_nonempty drawn) rfl rfl
        rw [screen, ran, drawn, ← flag]
        rfl
  · intro other same
    have drawn : { machine with memory := other }.drawing word.x word.y height =
        machine.drawing word.x word.y height := Screen.drawSprite_congr same machine.screen column
    rw [ran, execute_of_group_draw _ group]
    dsimp only
    rw [drawn]
    rfl

/-- A machine whose sprite begins in the last byte of memory. Its corner is given by the flag
register and wraps to the last pixel of the screen, which is lit. -/
def cornerSprite : Machine :=
  { (fresh .standard (.ofSeed 0)).setRegister flagRegister 127 with
    index := 4095
    memory := ⟨Vector.replicate 4096 0xFF⟩
    screen := (Screen.blank.flip 31 63).2 }

/-- The other rows of the sprite are below the screen and have no bytes in memory. -/
theorem execute_draw_cornerSprite :
    let outcome := cornerSprite.execute 0xDFF5
    outcome.result = .ok .draw ∧ outcome.machine.screen.isLit 31 63 = false ∧
      outcome.machine.register flagRegister = 1 := by
  intro outcome
  obtain ⟨inside_iff, draws, -⟩ := execute_draw cornerSprite 0xDFF5 (by decide)
  obtain ⟨result, turned_iff, left, -⟩ := draws (inside_iff.mpr (by decide +kernel))
  have lit : cornerSprite.screen.isLit 31 63 = true := by decide +kernel
  have set : cornerSprite.memory.spriteBit 31 63 4095 5 31 63 := by decide +kernel
  have inverted := (turned_iff 31 63).mpr ⟨by decide, Memory.spriteBit_iff.mp set⟩
  have meets : (cornerSprite.memory.spriteCells 31 63 4095 5 ∩
      cornerSprite.screen.litCells).Nonempty :=
    ⟨(31, 63), Finset.mem_inter.mpr ⟨Memory.mem_spriteCells.mpr set, Screen.mem_litCells.mpr lit⟩⟩
  refine ⟨result, ?_, ?_⟩
  · rw [lit] at inverted
    exact Bool.eq_false_iff.mpr inverted
  · have flag : outcome.machine.registers[15] =
        if (cornerSprite.memory.spriteCells 31 63 4095 5 ∩
          cornerSprite.screen.litCells).Nonempty then 1 else 0 := by
      rw [left]
      exact Vector.getElem_set_self ..
    rw [if_pos meets] at flag
    exact flag

end Machine

end Chip8
