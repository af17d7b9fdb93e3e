import Chip8.Proofs.Cycle

/-! # The language and its spellings

`Word.InLanguage` lists the words of the language group by group, and `Word.Alike` says which bits
of them nobody looks at. `Machine.language_of_decode` says that the decoder accepts exactly these
words and tells apart all that differ in other bits, so that a machine does the same for any two
spellings of an instruction and nothing for a word outside of the language.
-/

namespace Chip8

namespace Word

variable {v w : Word}

private theorem toNat_nn (word : Word) : word.nn.toNat = word.toNat % 256 := UInt8.toNat_ofNat'

/-- The low byte is made of the two low nibbles. -/
theorem nn_eq_iff : v.nn = w.nn ↔ v.y = w.y ∧ v.n = w.n := by
  rw [← UInt8.toNat_inj, toNat_nn, toNat_nn, Fin.ext_iff, Fin.ext_iff]
  change _ ↔ v.toNat / 16 % 16 = w.toNat / 16 % 16 ∧ v.toNat % 16 = w.toNat % 16
  omega

/-- The address is made of the three low nibbles. -/
theorem nnn_eq_iff : v.nnn = w.nnn ↔ v.x = w.x ∧ v.y = w.y ∧ v.n = w.n := by
  rw [← UInt16.toNat_inj, toNat_nnn, toNat_nnn, Fin.ext_iff, Fin.ext_iff, Fin.ext_iff]
  change _ ↔ v.toNat / 256 % 16 = w.toNat / 256 % 16 ∧ v.toNat / 16 % 16 = w.toNat / 16 % 16 ∧
    v.toNat % 16 = w.toNat % 16
  omega

/-- There is no more to a word than its four nibbles. -/
theorem eq_of_nibbles (group : v.group = w.group) (x : v.x = w.x) (y : v.y = w.y)
    (n : v.n = w.n) : v = w := by
  have top : v.toNat / 4096 % 16 = w.toNat / 4096 % 16 := congrArg Fin.val group
  have second : v.toNat / 256 % 16 = w.toNat / 256 % 16 := congrArg Fin.val x
  have third : v.toNat / 16 % 16 = w.toNat / 16 % 16 := congrArg Fin.val y
  have low : v.toNat % 16 = w.toNat % 16 := congrArg Fin.val n
  have bound := v.toNat_lt
  have otherBound := w.toNat_lt
  apply UInt16.toNat_inj.mp
  omega

/-- The words of the language. -/
def InLanguage (word : Word) : Prop :=
  match word.group.val with
  | 0x0 => word.nn = 0xE0 ∨ word.nn = 0xEE
  | 0x8 => word.n.val ≤ 0x7 ∨ word.n.val = 0xE
  | 0xE => word.nn = 0x9E ∨ word.nn = 0xA1
  | 0xF => word.nn ∈ ([0x07, 0x0A, 0x15, 0x18, 0x1E, 0x29, 0x33, 0x55, 0x65] : List UInt8)
  | _ => True

/-- Whether two words are the same up to the second nibble in group 0 and up to the low nibble in
the groups of the register comparisons. -/
structure Alike (v w : Word) : Prop where
  group : v.group = w.group
  x : v.group ≠ nibble 0x0 → v.x = w.x
  y : v.y = w.y
  n : v.group ≠ nibble 0x5 → v.group ≠ nibble 0x9 → v.n = w.n

end Word

namespace Instruction

variable {v w word : Word} {instruction : Instruction}

private theorem isSome_ofNibble?_iff (selector : Fin 16) :
    (Arithmetic.ofNibble? selector).isSome ↔ selector.val ≤ 0x7 ∨ selector.val = 0xE := by
  revert selector
  decide

private theorem isSome_ofSystem?_iff (selector : UInt8) :
    (ofSystem? selector).isSome ↔ selector = 0xE0 ∨ selector = 0xEE := by
  unfold ofSystem?
  split <;> simp_all

private theorem isSome_ofKeyTest?_iff (x : Register) (selector : UInt8) :
    (ofKeyTest? x selector).isSome ↔ selector = 0x9E ∨ selector = 0xA1 := by
  unfold ofKeyTest?
  split <;> simp_all

private theorem isSome_ofMisc?_iff (x : Register) (selector : UInt8) :
    (ofMisc? x selector).isSome ↔
      selector ∈ ([0x07, 0x0A, 0x15, 0x18, 0x1E, 0x29, 0x33, 0x55, 0x65] : List UInt8) := by
  unfold ofMisc?
  split <;> simp_all

private theorem isSome_ofWord?_iff (word : Word) : (ofWord? word).isSome ↔ word.InLanguage := by
  unfold ofWord? Word.InLanguage
  generalize word.group = group
  match group with
  | 0x0 => exact isSome_ofSystem?_iff word.nn
  | 0x8 =>
    change ((Arithmetic.ofNibble? word.n).map _).isSome ↔ _
    rw [Option.isSome_map]
    exact isSome_ofNibble?_iff word.n
  | 0xE => exact isSome_ofKeyTest?_iff word.x word.nn
  | 0xF => exact isSome_ofMisc?_iff word.x word.nn
  | 0x1 | 0x2 | 0x3 | 0x4 | 0x5 | 0x6 | 0x7 | 0x9 | 0xA | 0xB | 0xC | 0xD => simp
  | ⟨group + 16, beyond⟩ => omega

private theorem ofWord?_eq_none_iff (word : Word) : ofWord? word = none ↔ ¬ word.InLanguage := by
  rw [← isSome_ofWord?_iff, Option.not_isSome_iff_eq_none]

private theorem exists_encodes (known : word.InLanguage) :
    ∃ instruction, word.Encodes instruction := by
  obtain ⟨instruction, found⟩ := Option.isSome_iff_exists.mp ((isSome_ofWord?_iff word).mpr known)
  exact ⟨instruction, (ofWord?_eq_some_iff word instruction).mp found⟩

private theorem decode_of_encodes (encodes : word.Encodes instruction) :
    decode word = .ok instruction := by
  rw [decode, (ofWord?_eq_some_iff word instruction).mpr encodes]

private theorem decode_of_not_inLanguage (unknown : ¬ word.InLanguage) :
    decode word = .error (.unsupported word) := by
  rw [decode, (ofWord?_eq_none_iff word).mpr unknown]

private theorem decode_eq_ok_iff : decode word = .ok instruction ↔ word.Encodes instruction := by
  rw [← ofWord?_eq_some_iff, decode]
  cases ofWord? word <;> simp

/-- Two spellings of an instruction are alike. -/
theorem alike_of_encodes (first : v.Encodes instruction) (second : w.Encodes instruction) :
    v.Alike w := by
  have group : v.group = w.group := by
    cases instruction <;> exact first.1.trans second.1.symm
  cases instruction with
  | clear | ret =>
    obtain ⟨y, n⟩ := Word.nn_eq_iff.mp (first.2.trans second.2.symm)
    exact ⟨group, fun other => absurd first.1 other, y, fun _ _ => n⟩
  | jump | call | setIndex =>
    obtain ⟨x, y, n⟩ := Word.nnn_eq_iff.mp (first.2.trans second.2.symm)
    exact ⟨group, fun _ => x, y, fun _ _ => n⟩
  | jumpOffset =>
    obtain ⟨x, y, n⟩ := Word.nnn_eq_iff.mp (first.2.2.trans second.2.2.symm)
    exact ⟨group, fun _ => x, y, fun _ _ => n⟩
  | skipSame =>
    obtain ⟨family, rfl, rfl⟩ := first
    exact ⟨group, fun _ => second.2.1.symm, second.2.2.symm, fun other => absurd family other⟩
  | skipDifferent =>
    obtain ⟨family, rfl, rfl⟩ := first
    exact ⟨group, fun _ => second.2.1.symm, second.2.2.symm, fun _ other => absurd family other⟩
  | arithmetic =>
    obtain ⟨-, selected, rfl, rfl⟩ := first
    obtain ⟨-, again, x, y⟩ := second
    exact ⟨group, fun _ => x.symm, y.symm, fun _ _ => selected.trans again.symm⟩
  | draw =>
    obtain ⟨-, rfl, rfl, rfl⟩ := first
    obtain ⟨-, x, y, n⟩ := second
    exact ⟨group, fun _ => x.symm, y.symm, fun _ _ => n.symm⟩
  | skipEqual | skipNotEqual | set | add | random =>
    obtain ⟨y, n⟩ := Word.nn_eq_iff.mp (first.2.2.trans second.2.2.symm)
    exact ⟨group, fun _ => first.2.1.trans second.2.1.symm, y, fun _ _ => n⟩
  | _ =>
    obtain ⟨y, n⟩ := Word.nn_eq_iff.mp (first.2.1.trans second.2.1.symm)
    exact ⟨group, fun _ => first.2.2.trans second.2.2.symm, y, fun _ _ => n⟩

/-- Words that are alike spell the same instruction. -/
theorem encodes_of_alike (alike : v.Alike w) (encodes : v.Encodes instruction) :
    w.Encodes instruction := by
  obtain ⟨group, x, y, n⟩ := alike
  cases instruction with
  | skipSame | skipDifferent =>
    obtain ⟨family, rfl, rfl⟩ := encodes
    exact ⟨group ▸ family, (x (by rw [family]; decide)).symm, y.symm⟩
  | clear | ret =>
    obtain ⟨family, selector⟩ := encodes
    have low := n (by rw [family]; decide) (by rw [family]; decide)
    exact ⟨group ▸ family, (Word.nn_eq_iff.mpr ⟨y, low⟩) ▸ selector⟩
  | _ =>
    have family := encodes.1
    have second := x (by rw [family]; decide)
    have low := n (by rw [family]; decide) (by rw [family]; decide)
    exact Word.eq_of_nibbles group second y low ▸ encodes

private theorem decode_eq_decode_iff (first : v.InLanguage) (second : w.InLanguage) :
    decode v = decode w ↔ v.Alike w := by
  obtain ⟨one, spelled⟩ := exists_encodes first
  obtain ⟨other, spelledToo⟩ := exists_encodes second
  constructor
  · intro same
    rw [decode_of_encodes spelled, decode_of_encodes spelledToo] at same
    cases same
    exact alike_of_encodes spelled spelledToo
  · intro alike
    rw [decode_of_encodes spelled, decode_of_encodes (encodes_of_alike alike spelled)]

/-- The address in an instruction. -/
def target? : Instruction → Option UInt16
  | .jump target | .call target | .setIndex target | .jumpOffset _ target => some target
  | _ => none

/-- The numbers of registers and of rows in an instruction. -/
def digits : Instruction → List Nat
  | .clear | .ret | .jump _ | .call _ | .setIndex _ => []
  | .skipSame x y | .skipDifferent x y | .arithmetic _ x y => [x.val, y.val]
  | .draw x y height => [x.val, y.val, height.val]
  | .skipEqual x _ | .skipNotEqual x _ | .set x _ | .add x _ | .random x _ => [x.val]
  | .jumpOffset x _ | .skipPressed x | .skipReleased x | .readDelay x | .awaitKey x => [x.val]
  | .setDelay x | .setSound x | .addIndex x | .glyph x | .decimal x | .store x | .fill x => [x.val]

private theorem target_lt (encodes : word.Encodes instruction) {target : UInt16}
    (present : target ∈ instruction.target?) : target.toNat < 4096 := by
  cases instruction with
  | jump | call | setIndex =>
    cases present
    exact encodes.2 ▸ word.nnn_lt
  | jumpOffset =>
    cases present
    exact encodes.2.2 ▸ word.nnn_lt
  | _ => cases present

private theorem digit_lt {digit : Nat} (present : digit ∈ instruction.digits) : digit < 16 := by
  cases instruction <;> simp [digits] at present <;> omega

end Instruction

namespace Machine

variable {v w : Word}

/-- Two spellings of an instruction differ in the log alone. -/
theorem execute_of_alike (machine : Machine) (known : v.InLanguage) (alike : v.Alike w) :
    (machine.execute v).result = (machine.execute w).result ∧
      (machine.execute v).machine = (machine.execute w).machine := by
  obtain ⟨instruction, encodes⟩ := Instruction.exists_encodes known
  have again := Instruction.encodes_of_alike alike encodes
  rw [machine.execute_of_encodes encodes, machine.execute_of_encodes again]
  exact ⟨rfl, rfl⟩

/-- The language of the decoder. It accepts the words of the language and no others, and refuses
each of the others by name. Two words of the language stand for the same instruction exactly if they
are alike. Register numbers and heights are digits, and addresses have three of them.

A machine does the same for words of the language that are alike, and nothing at all for a word
outside of it. -/
theorem language_of_decode :
    (∀ word : Word, (∃ instruction, Instruction.decode word = .ok instruction) ↔ word.InLanguage) ∧
    (∀ word : Word, ¬ word.InLanguage →
      Instruction.decode word = .error (.unsupported word)) ∧
    (∀ v w : Word, v.InLanguage → w.InLanguage →
      (Instruction.decode v = Instruction.decode w ↔ v.Alike w)) ∧
    (∀ word instruction, Instruction.decode word = .ok instruction →
      (∀ digit ∈ instruction.digits, digit < 16) ∧
        ∀ target ∈ instruction.target?, target.toNat < 4096) ∧
    ∀ machine : Machine,
      (∀ v w : Word, v.InLanguage → w.InLanguage → v.Alike w →
        (machine.execute v).result = (machine.execute w).result ∧
          (machine.execute v).machine = (machine.execute w).machine) ∧
      ∀ word : Word, ¬ word.InLanguage →
        (machine.execute word).result = .ok .quiet ∧ (machine.execute word).machine = machine := by
  refine ⟨?_, fun word => Instruction.decode_of_not_inLanguage,
    fun v w => Instruction.decode_eq_decode_iff, ?_, ?_⟩
  · intro word
    rw [← Instruction.isSome_ofWord?_iff, Option.isSome_iff_exists]
    simp only [Instruction.decode_eq_ok_iff, Instruction.ofWord?_eq_some_iff]
  · intro word instruction decoded
    have encodes := Instruction.decode_eq_ok_iff.mp decoded
    exact ⟨fun _ => Instruction.digit_lt, fun _ => Instruction.target_lt encodes⟩
  · intro machine
    refine ⟨fun v w known _ => machine.execute_of_alike known, ?_⟩
    intro word outside
    rw [machine.execute_of_unknown ((Instruction.ofWord?_eq_none_iff word).mpr outside)]
    exact ⟨rfl, rfl⟩

end Machine

end Chip8
