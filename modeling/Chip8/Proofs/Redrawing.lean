import Chip8.Proofs.Drawing

/-! # Drawing again, and drawing in another order

A draw instruction inverts the pixels of its sprite, and it leaves alone what its sprite is given
by, unless a coordinate is in the flag register. `Machine.draws_cancel_and_commute` puts the two
together: to draw a sprite again is to take it off the screen, and sprites may be drawn in any
order.
-/

namespace Chip8.Machine

open scoped symmDiff

variable {machine other : Machine} {word : Word} {r : Register}

/-- The pixels of the screen under the set bits of the sprite that a draw instruction is given. -/
def spriteOf (machine : Machine) (word : Word) : Finset Cell :=
  machine.memory.spriteCells ((machine.register word.y).toNat % 32)
    ((machine.register word.x).toNat % 64) machine.index.toNat word.n.val

/-- The two machines give a draw instruction the same sprite at the same place. -/
structure SameSprite (word : Word) (machine other : Machine) : Prop where
  x : other.register word.x = machine.register word.x
  y : other.register word.y = machine.register word.y
  index : other.index = machine.index
  memory : other.memory = machine.memory

private theorem SameSprite.spriteOf_eq (same : SameSprite word machine other) :
    other.spriteOf word = machine.spriteOf word := by
  rw [spriteOf, spriteOf, same.x, same.y, same.index, same.memory]

private theorem isOk_execute_draw_iff (group : word.group = nibble 0xD) :
    (machine.execute word).result.isOk ↔
      ∀ i < word.n.val, (machine.register word.y).toNat % 32 + i < 32 →
        machine.index.toNat + i < 4096 := by
  have drawn_iff : (machine.drawing word.x word.y word.n.val).1.isOk ↔
      ∀ i < word.n.val, (machine.register word.y).toNat % 32 + i < 32 →
        machine.index.toNat + i < 4096 := Screen.isOk_drawSprite_iff
  rw [execute_of_group_draw machine group, ← drawn_iff]
  cases (machine.drawing word.x word.y word.n.val).1 <;> rfl

/-- Whether a drawing succeeds does not depend on the screen. -/
theorem SameSprite.isOk_iff (same : SameSprite word machine other)
    (group : word.group = nibble 0xD) :
    (other.execute word).result.isOk ↔ (machine.execute word).result.isOk := by
  rw [isOk_execute_draw_iff group, isOk_execute_draw_iff group, same.y, same.index]

private theorem result_execute_draw (group : word.group = nibble 0xD)
    (succeeds : (machine.execute word).result.isOk) :
    (machine.execute word).result = .ok .draw := by
  rw [execute_of_group_draw machine group] at succeeds ⊢
  cases drawn : (machine.drawing word.x word.y word.n.val).1 with
  | ok hit => rfl
  | error fault =>
    rw [drawn] at succeeds
    cases succeeds

private theorem litCells_execute_draw (machine : Machine) (group : word.group = nibble 0xD) :
    (machine.execute word).machine.screen.litCells =
      machine.screen.litCells ∆ machine.spriteOf word := by
  rw [execute_of_group_draw machine group]
  exact Screen.litCells_drawSprite ..

private theorem flag_execute_draw (group : word.group = nibble 0xD)
    (succeeds : (machine.execute word).result.isOk) :
    (machine.execute word).machine.register flagRegister =
      if (machine.spriteOf word ∩ machine.screen.litCells).Nonempty then 1 else 0 := by
  rw [execute_of_group_draw machine group] at succeeds ⊢
  cases drawn : (machine.drawing word.x word.y word.n.val).1 with
  | ok hit =>
    have met : hit = true ↔ (machine.spriteOf word ∩ machine.screen.litCells).Nonempty :=
      Screen.hit_iff_inter_nonempty drawn
    rw [← if_congr met rfl rfl]
    exact Vector.getElem_set_self ..
  | error fault =>
    rw [drawn] at succeeds
    cases succeeds

private theorem flag_execute_draw_eq_one_iff (group : word.group = nibble 0xD)
    (succeeds : (machine.execute word).result.isOk) :
    (machine.execute word).machine.register flagRegister = 1 ↔
      (machine.spriteOf word ∩ machine.screen.litCells).Nonempty := by
  rw [flag_execute_draw group succeeds]
  split <;> simp [*]

private theorem flag_execute_draw_eq_zero_iff (group : word.group = nibble 0xD)
    (succeeds : (machine.execute word).result.isOk) :
    (machine.execute word).machine.register flagRegister = 0 ↔
      machine.spriteOf word ∩ machine.screen.litCells = ∅ := by
  rw [flag_execute_draw group succeeds, ← Finset.not_nonempty_iff_eq_empty]
  split <;> simp [*]

/-- A draw instruction writes no register but the flag. -/
theorem register_execute_draw (machine : Machine) (group : word.group = nibble 0xD)
    (unflagged : r ≠ flagRegister) :
    (machine.execute word).machine.register r = machine.register r := by
  rw [execute_of_group_draw machine group]
  exact (register_setRegister ..).trans (if_neg (Ne.symm unflagged))

private theorem memory_execute_draw (machine : Machine) (group : word.group = nibble 0xD) :
    (machine.execute word).machine.memory = machine.memory := by
  rw [execute_of_group_draw machine group]
  rfl

private theorem index_execute_draw (machine : Machine) (group : word.group = nibble 0xD) :
    (machine.execute word).machine.index = machine.index := by
  rw [execute_of_group_draw machine group]
  rfl

private theorem sameSprite_again (machine : Machine) (group : word.group = nibble 0xD)
    (x : word.x ≠ flagRegister) (y : word.y ≠ flagRegister) :
    SameSprite word machine (machine.execute word).machine where
  x := register_execute_draw machine group x
  y := register_execute_draw machine group y
  index := index_execute_draw machine group
  memory := memory_execute_draw machine group

/-- A sprite at `second` is the same before and after another one, at `first`, is drawn. -/
theorem sameSprite_behind {drawn : Word} (machine : Machine) (first second : UInt16)
    (group : drawn.group = nibble 0xD) (x : word.x ≠ flagRegister) (y : word.y ≠ flagRegister) :
    SameSprite word (machine.setIndex second)
      (((machine.setIndex first).execute drawn).machine.setIndex second) where
  x := register_execute_draw (machine.setIndex first) group x
  y := register_execute_draw (machine.setIndex first) group y
  index := rfl
  memory := memory_execute_draw (machine.setIndex first) group

/-- What a sprite meets once it is drawn are its pixels that were dark before. -/
theorem inter_symmDiff_self (sprite lit : Finset Cell) : sprite ∩ lit ∆ sprite = sprite \ lit := by
  ext cell
  rw [Finset.mem_inter, Finset.mem_symmDiff, Finset.mem_sdiff]
  tauto

private theorem screen_execute_draw_twice (machine : Machine) (group : word.group = nibble 0xD)
    (x : word.x ≠ flagRegister) (y : word.y ≠ flagRegister) :
    ((machine.execute word).machine.execute word).machine.screen = machine.screen := by
  have again := machine.sameSprite_again group x y
  apply Screen.eq_of_litCells_eq
  rw [litCells_execute_draw _ group, again.spriteOf_eq, litCells_execute_draw machine group]
  exact symmDiff_symmDiff_cancel_right ..

private theorem litCells_execute_draw_behind {drawn : Word} (machine : Machine)
    (first second : UInt16) (drawnGroup : drawn.group = nibble 0xD)
    (group : word.group = nibble 0xD) (x : word.x ≠ flagRegister) (y : word.y ≠ flagRegister) :
    ((((machine.setIndex first).execute drawn).machine.setIndex second).execute
        word).machine.screen.litCells =
      machine.screen.litCells ∆ (machine.setIndex first).spriteOf drawn ∆
        (machine.setIndex second).spriteOf word := by
  have same := machine.sameSprite_behind first second drawnGroup x y
  rw [litCells_execute_draw _ group, same.spriteOf_eq]
  have before := litCells_execute_draw (machine.setIndex first) drawnGroup
  exact congrArg (· ∆ (machine.setIndex second).spriteOf word) before

/-- Drawing a sprite whose coordinates are not in the flag register, if there is no fault.

To draw it again succeeds and restores the screen. One of the two drawings leaves the flag set if
and only if the sprite has a set bit on the screen, and the second one leaves it cleared exactly
when all of its pixels were lit from the start.

Of two such sprites, each at its own place in memory, both can be drawn one after the other, and the
order makes no difference to the screen. -/
theorem draws_cancel_and_commute (machine : Machine) :
    (∀ word : Word, word.group = nibble 0xD → word.x ≠ flagRegister → word.y ≠ flagRegister →
      (machine.execute word).result.isOk →
      let first := machine.execute word
      let second := first.machine.execute word
      let sprite := machine.spriteOf word
      second.result = .ok .draw ∧ second.machine.screen = machine.screen ∧
        (first.machine.register flagRegister = 1 ∨ second.machine.register flagRegister = 1 ↔
          sprite.Nonempty) ∧
        (second.machine.register flagRegister = 0 ↔
          ∀ cell ∈ sprite, machine.screen.isLit cell.1 cell.2)) ∧
    ∀ (one other : Word) (here there : UInt16),
      one.group = nibble 0xD → one.x ≠ flagRegister → one.y ≠ flagRegister →
      other.group = nibble 0xD → other.x ≠ flagRegister → other.y ≠ flagRegister →
      ((machine.setIndex here).execute one).result.isOk →
      ((machine.setIndex there).execute other).result.isOk →
      let oneFirst :=
        (((machine.setIndex here).execute one).machine.setIndex there).execute other
      let otherFirst :=
        (((machine.setIndex there).execute other).machine.setIndex here).execute one
      oneFirst.result = .ok .draw ∧ otherFirst.result = .ok .draw ∧
        oneFirst.machine.screen = otherFirst.machine.screen := by
  refine ⟨?_, ?_⟩
  · intro word group x y succeeds first second sprite
    have again : SameSprite word machine first.machine := machine.sameSprite_again group x y
    have succeedsAgain : second.result.isOk := (again.isOk_iff group).mpr succeeds
    have meets : first.machine.spriteOf word ∩ first.machine.screen.litCells =
        sprite \ machine.screen.litCells := by
      rw [again.spriteOf_eq, litCells_execute_draw machine group]
      exact inter_symmDiff_self ..
    refine ⟨result_execute_draw group succeedsAgain,
      machine.screen_execute_draw_twice group x y, ?_, ?_⟩
    · rw [flag_execute_draw_eq_one_iff group succeeds,
        flag_execute_draw_eq_one_iff group succeedsAgain, meets, ← Finset.union_nonempty,
        Finset.union_comm, Finset.sdiff_union_inter]
    · rw [flag_execute_draw_eq_zero_iff group succeedsAgain, meets,
        Finset.sdiff_eq_empty_iff_subset]
      exact forall₂_congr fun cell _ => Screen.mem_litCells
  · intro one other here there oneGroup oneX oneY otherGroup otherX otherY oneOk otherOk
      oneFirst otherFirst
    have otherSame := machine.sameSprite_behind here there oneGroup otherX otherY
    have oneSame := machine.sameSprite_behind there here otherGroup oneX oneY
    refine ⟨result_execute_draw otherGroup ((otherSame.isOk_iff otherGroup).mpr otherOk),
      result_execute_draw oneGroup ((oneSame.isOk_iff oneGroup).mpr oneOk), ?_⟩
    apply Screen.eq_of_litCells_eq
    rw [machine.litCells_execute_draw_behind here there oneGroup otherGroup otherX otherY,
      machine.litCells_execute_draw_behind there here otherGroup oneGroup oneX oneY]
    exact symmDiff_right_comm ..

/-- A machine with a glyph at the lower right corner of the screen, of which three pixels are
visible and one of them is lit. -/
def clippedGlyph : Machine :=
  { ((fresh .standard (.ofSeed 0)).setRegister (nibble 0) 62).setRegister (nibble 1) 30 with
    screen := (Screen.blank.flip 30 62).2 }

/-- Drawn again, the glyph is gone, and another glyph may be drawn before or after it. -/
theorem draws_cancel_and_commute_clippedGlyph :
    ((clippedGlyph.execute 0xD015).machine.execute 0xD015).machine.screen = clippedGlyph.screen ∧
      ((clippedGlyph.execute 0xD015).machine.execute 0xD015).machine.register flagRegister ≠ 0 ∧
      ((((clippedGlyph.setIndex 0).execute 0xD015).machine.setIndex 5).execute
          0xD105).machine.screen =
        ((((clippedGlyph.setIndex 5).execute 0xD105).machine.setIndex 0).execute
          0xD015).machine.screen := by
  obtain ⟨cancels, commutes⟩ := draws_cancel_and_commute clippedGlyph
  obtain ⟨-, restored, -, unmet_iff⟩ := cancels 0xD015 (by decide) (by decide) (by decide)
    (by decide +kernel)
  obtain ⟨-, -, commute⟩ := commutes 0xD015 0xD105 0 5 (by decide) (by decide) (by decide)
    (by decide) (by decide) (by decide) (by decide +kernel) (by decide +kernel)
  have inside : (30, 63) ∈ clippedGlyph.spriteOf 0xD015 :=
    Memory.mem_spriteCells.mpr (by decide +kernel)
  have dark : ¬ clippedGlyph.screen.isLit 30 63 := by decide +kernel
  exact ⟨restored, fun unmet => dark (unmet_iff.mp unmet (30, 63) inside), commute⟩

/-- A coordinate in the flag register moves: the second of these drawings is a row above the first
one, and both remain. -/
example :
    let machine := (fresh .standard (.ofSeed 0)).setRegister flagRegister 1
    let twice := ((machine.execute 0xD0F1).machine.execute 0xD0F1).machine
    twice.screen.isLit 0 0 ∧ twice.screen.isLit 1 0 := by
  decide +kernel

end Chip8.Machine
