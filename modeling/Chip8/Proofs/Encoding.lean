import Chip8.Instruction

/-! # The words of the language

`Word.Encodes` is the table of the language: the bits that each instruction is written with.
`Instruction.ofWord?_eq_some_iff` says that the decoder reads exactly this table, so that facts
about a fetched word and facts about the instruction it stands for can be exchanged.
-/

namespace Chip8

/-- The low nibble that selects an operation. -/
def Arithmetic.selector : Arithmetic → Fin 16
  | .assign => nibble 0x0
  | .or => nibble 0x1
  | .and => nibble 0x2
  | .xor => nibble 0x3
  | .add => nibble 0x4
  | .sub => nibble 0x5
  | .shiftRight => nibble 0x6
  | .subReverse => nibble 0x7
  | .shiftLeft => nibble 0xE

private theorem Arithmetic.ofNibble?_eq_some_iff (selector : Fin 16) (operation : Arithmetic) :
    Arithmetic.ofNibble? selector = some operation ↔ selector = operation.selector := by
  cases operation <;> revert selector <;> decide

/-- Whether a word is a spelling of an instruction. Group 0 leaves the second nibble open, the
comparisons of registers leave the last one open, and every other instruction has one spelling. -/
def Word.Encodes (word : Word) : Instruction → Prop
  | .clear => word.group = nibble 0x0 ∧ word.nn = 0xE0
  | .ret => word.group = nibble 0x0 ∧ word.nn = 0xEE
  | .jump target => word.group = nibble 0x1 ∧ word.nnn = target
  | .call target => word.group = nibble 0x2 ∧ word.nnn = target
  | .skipEqual x value => word.group = nibble 0x3 ∧ word.x = x ∧ word.nn = value
  | .skipNotEqual x value => word.group = nibble 0x4 ∧ word.x = x ∧ word.nn = value
  | .skipSame x y => word.group = nibble 0x5 ∧ word.x = x ∧ word.y = y
  | .set x value => word.group = nibble 0x6 ∧ word.x = x ∧ word.nn = value
  | .add x value => word.group = nibble 0x7 ∧ word.x = x ∧ word.nn = value
  | .arithmetic operation x y =>
    word.group = nibble 0x8 ∧ word.n = operation.selector ∧ word.x = x ∧ word.y = y
  | .skipDifferent x y => word.group = nibble 0x9 ∧ word.x = x ∧ word.y = y
  | .setIndex target => word.group = nibble 0xA ∧ word.nnn = target
  | .jumpOffset x target => word.group = nibble 0xB ∧ word.x = x ∧ word.nnn = target
  | .random x mask => word.group = nibble 0xC ∧ word.x = x ∧ word.nn = mask
  | .draw x y height => word.group = nibble 0xD ∧ word.x = x ∧ word.y = y ∧ word.n = height
  | .skipPressed x => word.group = nibble 0xE ∧ word.nn = 0x9E ∧ word.x = x
  | .skipReleased x => word.group = nibble 0xE ∧ word.nn = 0xA1 ∧ word.x = x
  | .readDelay x => word.group = nibble 0xF ∧ word.nn = 0x07 ∧ word.x = x
  | .awaitKey x => word.group = nibble 0xF ∧ word.nn = 0x0A ∧ word.x = x
  | .setDelay x => word.group = nibble 0xF ∧ word.nn = 0x15 ∧ word.x = x
  | .setSound x => word.group = nibble 0xF ∧ word.nn = 0x18 ∧ word.x = x
  | .addIndex x => word.group = nibble 0xF ∧ word.nn = 0x1E ∧ word.x = x
  | .glyph x => word.group = nibble 0xF ∧ word.nn = 0x29 ∧ word.x = x
  | .decimal x => word.group = nibble 0xF ∧ word.nn = 0x33 ∧ word.x = x
  | .store x => word.group = nibble 0xF ∧ word.nn = 0x55 ∧ word.x = x
  | .fill x => word.group = nibble 0xF ∧ word.nn = 0x65 ∧ word.x = x

namespace Instruction

private theorem encodes_of_ofSystem? {word : Word} {instruction : Instruction}
    (group : word.group = nibble 0x0)
    (found : ofSystem? word.nn = some instruction) : word.Encodes instruction := by
  unfold ofSystem? at found
  split at found
  case h_1 selector => cases found; exact ⟨group, selector⟩
  case h_2 selector => cases found; exact ⟨group, selector⟩
  case h_3 => cases found

private theorem encodes_of_ofKeyTest? {word : Word} {instruction : Instruction}
    (group : word.group = nibble 0xE)
    (found : ofKeyTest? word.x word.nn = some instruction) : word.Encodes instruction := by
  unfold ofKeyTest? at found
  split at found
  case h_1 selector => cases found; exact ⟨group, selector, rfl⟩
  case h_2 selector => cases found; exact ⟨group, selector, rfl⟩
  case h_3 => cases found

private theorem encodes_of_ofMisc? {word : Word} {instruction : Instruction}
    (group : word.group = nibble 0xF)
    (found : ofMisc? word.x word.nn = some instruction) : word.Encodes instruction := by
  unfold ofMisc? at found
  split at found
  case h_10 => cases found
  all_goals
    rename_i selector
    cases found
    exact ⟨group, selector, rfl⟩

private theorem encodes_of_ofWord? {word : Word} {instruction : Instruction}
    (found : ofWord? word = some instruction) : word.Encodes instruction := by
  unfold ofWord? at found
  split at found
  case h_1 group => exact encodes_of_ofSystem? group found
  case h_9 group =>
    obtain ⟨operation, selected, rfl⟩ := Option.map_eq_some_iff.mp found
    exact ⟨group, (Arithmetic.ofNibble?_eq_some_iff ..).mp selected, rfl, rfl⟩
  case h_14 group => cases found; exact ⟨group, rfl, rfl, rfl⟩
  case h_15 group => exact encodes_of_ofKeyTest? group found
  case h_16 =>
    have group : word.group = nibble 0xF := by
      generalize word.group = group at *
      revert group
      decide
    exact encodes_of_ofMisc? group found
  all_goals
    rename_i group
    cases found
  case h_2 | h_3 | h_11 => exact ⟨group, rfl⟩
  all_goals exact ⟨group, rfl, rfl⟩

/-- The decoder reads exactly the table of the language. -/
theorem ofWord?_eq_some_iff (word : Word) (instruction : Instruction) :
    ofWord? word = some instruction ↔ word.Encodes instruction := by
  refine ⟨encodes_of_ofWord?, ?_⟩
  intro encodes
  cases instruction with
  | clear | ret => simp [ofWord?, nibble, ofSystem?, encodes.1, encodes.2]
  | arithmetic operation x y =>
    obtain ⟨group, selector, rfl, rfl⟩ := encodes
    have selected := (Arithmetic.ofNibble?_eq_some_iff word.n operation).mpr selector
    simp [ofWord?, nibble, group, selected]
  | draw =>
    obtain ⟨group, rfl, rfl, rfl⟩ := encodes
    simp [ofWord?, nibble, group]
  | jump | call | setIndex =>
    obtain ⟨group, rfl⟩ := encodes
    simp [ofWord?, nibble, group]
  | skipPressed | skipReleased =>
    obtain ⟨group, selector, rfl⟩ := encodes
    simp [ofWord?, nibble, ofKeyTest?, group, selector]
  | readDelay | awaitKey | setDelay | setSound | addIndex | glyph | decimal | store | fill =>
    obtain ⟨group, selector, rfl⟩ := encodes
    simp [ofWord?, nibble, ofMisc?, group, selector]
  | skipEqual | skipNotEqual | skipSame | set | add | skipDifferent | jumpOffset | random =>
    obtain ⟨group, rfl, rfl⟩ := encodes
    simp [ofWord?, nibble, group]

end Instruction

end Chip8
