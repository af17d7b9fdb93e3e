import Chip8.Screen

/-! # What a sprite does to the screen

`Screen.isLit_drawSprite` gives the drawing loops in closed form: a pixel is inverted exactly when
the sprite has a set bit for it. The form also covers a drawing that ends early, since a row whose
byte lies outside of memory has no bits. `Screen.drawSprite_eq_error_iff` says when that happens,
`Screen.hit_drawSprite` which lit pixels a drawing that does not end early has met, and
`Screen.drawSprite_congr` which part of memory it depends on.
-/

namespace Chip8

/-- Whether the sprite whose corner is at `row` and `column` and whose first byte is at `address`
has a set bit for the pixel at `r` and `c`. -/
def Memory.spriteBit (memory : Memory) (row column address height r c : Nat) : Bool :=
  decide (row ≤ r ∧ r < row + height ∧ column ≤ c ∧ c < column + 8) &&
    (memory.bytes[address + (r - row)]?).any fun byte => byte.toNat.testBit (7 - (c - column))

private theorem mem_spriteColumns (byte : UInt8) (column c : Nat) :
    c ∈ spriteColumns byte column ↔
      (column ≤ c ∧ c < column + 8) ∧ byte.toNat.testBit (7 - (c - column)) := by
  simp only [spriteColumns, List.mem_map, List.mem_filter, List.mem_range]
  constructor
  · rintro ⟨offset, ⟨narrow, set⟩, rfl⟩
    rw [Nat.add_sub_cancel_left]
    exact ⟨by omega, set⟩
  · rintro ⟨inside, set⟩
    exact ⟨c - column, ⟨by omega, set⟩, by omega⟩

private theorem nodup_spriteColumns (byte : UInt8) (column : Nat) :
    (spriteColumns byte column).Nodup := by
  refine List.Pairwise.map _ ?_ (List.nodup_range.filter _)
  intro first second apart
  omega

namespace Screen

/-- Flipping different pixels of a row inverts each of them once. -/
theorem isLit_flipRow (screen : Screen) (row : Nat) {columns : List Nat} (apart : columns.Nodup)
    (r c : Nat) :
    (screen.flipRow row columns).2.isLit r c =
      (screen.isLit r c ^^ decide (row = r ∧ c ∈ columns ∧ r < 32 ∧ c < 64)) := by
  induction columns generalizing screen with
  | nil => simp [flipRow]
  | cons column columns ih =>
    obtain ⟨fresh, apart⟩ := List.nodup_cons.mp apart
    change ((screen.flip row column).2.flipRow row columns).2.isLit r c = _
    rw [ih _ apart, isLit_flip, Bool.xor_assoc]
    congr 1
    by_cases here : column = c
    · subst here
      simp only [fresh, List.mem_cons, true_or]
      grind
    · grind

theorem lt_of_isLit {screen : Screen} {row column : Nat} (lit : screen.isLit row column) :
    row < 32 ∧ column < 64 := by
  unfold isLit at lit
  split at lit
  next inside => exact inside
  next => cases lit

/-- Pixels of a row that are flipped once each are met in the state that they start in. -/
theorem hit_flipRow (screen : Screen) (row : Nat) {columns : List Nat} (apart : columns.Nodup) :
    (screen.flipRow row columns).1 ↔ ∃ c ∈ columns, screen.isLit row c := by
  induction columns generalizing screen with
  | nil => simp [flipRow]
  | cons column columns ih =>
    obtain ⟨fresh, apart⟩ := List.nodup_cons.mp apart
    have unmoved : ∀ c ∈ columns,
        (screen.flip row column).2.isLit row c = screen.isLit row c := by
      intro c present
      have other : column ≠ c := fun same => fresh (same ▸ present)
      rw [isLit_flip, decide_eq_false (by omega), Bool.xor_false]
    have here : ((screen.flip row column).1 == some true) ↔ screen.isLit row column := by
      rw [flip_fst]
      split
      next inside => simp
      next outside => simpa using fun lit => outside (lt_of_isLit lit)
    change ((screen.flip row column).1 == some true ||
      ((screen.flip row column).2.flipRow row columns).1) ↔ _
    have later : (∃ c ∈ columns, (screen.flip row column).2.isLit row c) ↔
        ∃ c ∈ columns, screen.isLit row c :=
      exists_congr fun c => and_congr_right fun present => by rw [unmoved c present]
    rw [Bool.or_eq_true, ih _ apart, here, later]
    simp only [List.mem_cons, or_and_right, exists_or, exists_eq_left]

/-- The part of a sprite in its first row, and the sprite below it. -/
theorem spriteBit_succ {memory : Memory} {row column address height r c : Nat} {byte : UInt8}
    (present : memory.bytes[address]? = some byte) :
    memory.spriteBit row column address (height + 1) r c =
      (decide (row = r ∧ c ∈ spriteColumns byte column) ^^
        memory.spriteBit (row + 1) column (address + 1) height r c) := by
  unfold Memory.spriteBit
  by_cases here : row = r
  · subst here
    have above : ¬ row + 1 ≤ row := by omega
    simp [mem_spriteColumns, above, present, Bool.decide_and]
  · by_cases below : row < r
    · have offset : address + 1 + (r - (row + 1)) = address + (r - row) := by omega
      have rows : (row ≤ r ∧ r < row + (height + 1) ∧ column ≤ c ∧ c < column + 8) ↔
          (row + 1 ≤ r ∧ r < row + 1 + height ∧ column ≤ c ∧ c < column + 8) := by omega
      simp only [offset, rows, here, false_and, decide_false, Bool.false_xor]
    · have before : ¬ row ≤ r := by omega
      have beforeNext : ¬ row + 1 ≤ r := by omega
      simp [here, before, beforeNext]

private theorem spriteBit_zero {memory : Memory} {row column address r c : Nat} :
    memory.spriteBit row column address 0 r c = false := by
  simp [Memory.spriteBit]; omega

private theorem spriteBit_of_above {memory : Memory} {row column address height r c : Nat}
    (above : r < row) : memory.spriteBit row column address height r c = false := by
  have outside : ¬ row ≤ r := by omega
  simp [Memory.spriteBit, outside]

private theorem spriteBit_of_beyond {memory : Memory} {row column address height r c : Nat}
    (beyond : 4096 ≤ address) : memory.spriteBit row column address height r c = false := by
  have missing : memory.bytes[address + (r - row)]? = none := by simp; omega
  simp [Memory.spriteBit, missing]

/-- Drawing inverts the pixels that the sprite has a set bit for, and no others. This also holds
when the drawing fails. -/
theorem isLit_drawSprite (screen : Screen) (memory : Memory) (row column address height r c : Nat) :
    (screen.drawSprite memory row column address height).2.isLit r c =
      (screen.isLit r c ^^
        (decide (r < 32 ∧ c < 64) && memory.spriteBit row column address height r c)) := by
  induction height generalizing screen row address with
  | zero => simp [drawSprite, spriteBit_zero]
  | succ height ih =>
    unfold drawSprite
    split
    next visible =>
      by_cases inside : address < 4096
      · rw [Memory.read_of_lt memory inside]
        have present : memory.bytes[address]? = some memory.bytes[address] := by simp [inside]
        simp only [ih, isLit_flipRow _ _ (nodup_spriteColumns _ _), spriteBit_succ present]
        grind
      · rw [Memory.read_of_le memory (by omega), spriteBit_of_beyond (by omega)]
        simp
    next below =>
      by_cases onScreen : r < 32
      · change ¬ row < 32 at below
        simp [spriteBit_of_above (show r < row by omega)]
      · simp [onScreen]

theorem map_eq_error_iff {α β : Type} (change : α → β) (result : Except Fault α) (fault : Fault) :
    result.map change = .error fault ↔ result = .error fault := by
  cases result <;> simp [Except.map]

private theorem map_eq_ok_iff {α β : Type} (change : α → β) (result : Except Fault α) (value : β) :
    result.map change = .ok value ↔ ∃ before, result = .ok before ∧ change before = value := by
  cases result <;> simp [Except.map]

/-- A drawing that succeeds tells whether the sprite has a set bit for a pixel that was lit. The
rows below do not meet what the first row has flipped. -/
theorem hit_drawSprite {screen : Screen} {memory : Memory} {row column address height : Nat}
    {hit : Bool} (drawn : (screen.drawSprite memory row column address height).1 = .ok hit) :
    hit ↔ ∃ r c, memory.spriteBit row column address height r c ∧ screen.isLit r c := by
  induction height generalizing screen row address hit with
  | zero =>
    cases drawn
    simp [spriteBit_zero]
  | succ height ih =>
    unfold drawSprite at drawn
    split at drawn
    next visible =>
      by_cases inside : address < 4096
      · rw [Memory.read_of_lt memory inside] at drawn
        have present : memory.bytes[address]? = some memory.bytes[address] := by simp [inside]
        have apart := nodup_spriteColumns memory.bytes[address] column
        obtain ⟨below, rest, rfl⟩ := (map_eq_ok_iff ..).mp drawn
        rw [Bool.or_eq_true, hit_flipRow _ _ apart, ih rest]
        have split (r c : Nat) :
            memory.spriteBit row column address (height + 1) r c ∧ screen.isLit r c ↔
              (row = r ∧ c ∈ spriteColumns memory.bytes[address] column ∧ screen.isLit r c) ∨
              memory.spriteBit (row + 1) column (address + 1) height r c ∧
                (screen.flipRow row (spriteColumns memory.bytes[address] column)).2.isLit r c := by
          rw [spriteBit_succ present, isLit_flipRow _ _ apart]
          by_cases here : row = r
          · subst here
            simp [spriteBit_of_above (Nat.lt_succ_self row)]
          · simp [here]
        simp only [split, exists_or, exists_and_left, exists_eq_left']
      · rw [Memory.read_of_le memory (by omega)] at drawn
        cases drawn
    next below =>
      change ¬ row < 32 at below
      cases drawn
      simp only [Bool.false_eq_true, false_iff, not_exists, not_and]
      intro r c set lit
      have visible := (lt_of_isLit lit).1
      rw [spriteBit_of_above (by omega)] at set
      cases set

/-- A drawing depends on the bytes of its visible rows alone. -/
theorem drawSprite_congr {memory other : Memory} {row address height : Nat}
    (same : ∀ i < height, row + i < 32 → other.bytes[address + i]? = memory.bytes[address + i]?)
    (screen : Screen) (column : Nat) :
    screen.drawSprite other row column address height =
      screen.drawSprite memory row column address height := by
  induction height generalizing screen row address with
  | zero => rfl
  | succ height ih =>
    unfold drawSprite
    split
    next visible =>
      have first : other.read address = memory.read address := by
        have here : other.bytes[address]? = memory.bytes[address]? :=
          same 0 (Nat.succ_pos height) visible
        rw [Memory.read, here, Memory.read]
      have below : ∀ i < height, row + 1 + i < 32 →
          other.bytes[address + 1 + i]? = memory.bytes[address + 1 + i]? := by
        intro i inSprite onScreen
        rw [Nat.add_assoc] at onScreen ⊢
        rw [Nat.add_comm 1] at onScreen ⊢
        exact same (i + 1) (Nat.succ_lt_succ inSprite) onScreen
      rw [first]
      cases memory.read address with
      | error fault => rfl
      | ok byte => simp only [ih below]
    next hidden => rfl

/-- A drawing fails exactly when one of its visible rows has no byte in memory. -/
theorem drawSprite_eq_error_iff (screen : Screen) (memory : Memory)
    (row column address height : Nat) (fault : Fault) :
    (screen.drawSprite memory row column address height).1 = .error fault ↔
      fault = .outOfMemory (max address 4096) 4096 ∧
        ∃ i < height, row + i < 32 ∧ 4096 ≤ address + i := by
  induction height generalizing screen row address with
  | zero => simp [drawSprite]
  | succ height ih =>
    unfold drawSprite
    split
    next visible =>
      change row < 32 at visible
      by_cases inside : address < 4096
      · rw [Memory.read_of_lt memory inside]
        have highest : max (address + 1) 4096 = max address 4096 := by omega
        have shifted : (∃ i < height, row + 1 + i < 32 ∧ 4096 ≤ address + 1 + i) ↔
            ∃ i < height + 1, row + i < 32 ∧ 4096 ≤ address + i := by
          constructor
          · rintro ⟨i, inSprite, onScreen, missing⟩
            exact ⟨i + 1, by omega, by omega, by omega⟩
          · rintro ⟨i, inSprite, onScreen, missing⟩
            exact ⟨i - 1, by omega, by omega, by omega⟩
        simp only [map_eq_error_iff, ih, highest, shifted]
      · rw [Memory.read_of_le memory (by omega)]
        have highest : max address 4096 = address := by omega
        simp only [Except.error.injEq, highest]
        constructor
        · intro same
          exact ⟨same.symm, 0, by omega, by omega, by omega⟩
        · rintro ⟨same, -⟩
          exact same.symm
    next below =>
      change ¬ row < 32 at below
      simp only [reduceCtorEq, false_iff, not_and]
      rintro - ⟨i, -, onScreen, -⟩
      omega

end Screen

end Chip8
