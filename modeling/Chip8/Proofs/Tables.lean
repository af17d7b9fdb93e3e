import Chip8.Dump.Hexdump
import Mathlib.Algebra.Group.Nat.Defs

/-! # Reading tables back

A numeral determines its number and a line of a table its entries, so the lines of a table determine
what was printed, as long as it is known how many entries there were. Columns are told apart by the
blanks between them, for no numeral has a blank in it.
-/

namespace Chip8

section Pieces

variable {α : Type} {separator : α}

private theorem intercalate_cons_eq_append_flatMap (piece : List α) (rest : List (List α)) :
    [separator].intercalate (piece :: rest) = piece ++ rest.flatMap (separator :: ·) := by
  induction rest generalizing piece with
  | nil => simp [List.intercalate_singleton]
  | cons next rest ih =>
    rw [List.intercalate_cons_cons, ih, List.flatMap_cons]
    simp only [List.append_assoc, List.cons_append, List.nil_append]

theorem intercalate_append {first second : List (List α)} (firstNonempty : first ≠ [])
    (secondNonempty : second ≠ []) : [separator].intercalate (first ++ second) =
      [separator].intercalate first ++ separator :: [separator].intercalate second := by
  obtain ⟨piece, rest, rfl⟩ := List.exists_cons_of_ne_nil firstNonempty
  obtain ⟨other, others, rfl⟩ := List.exists_cons_of_ne_nil secondNonempty
  rw [List.cons_append]
  simp only [intercalate_cons_eq_append_flatMap, List.flatMap_append, List.flatMap_cons,
    List.append_assoc, List.cons_append]

variable [BEq α] [LawfulBEq α]

/-- Pieces without separators in them are determined by what they are joined to. -/
theorem eq_of_intercalate_eq {first second : List (List α)}
    (firstFree : ∀ piece ∈ first, separator ∉ piece)
    (secondFree : ∀ piece ∈ second, separator ∉ piece) (firstNonempty : first ≠ [])
    (secondNonempty : second ≠ [])
    (same : [separator].intercalate first = [separator].intercalate second) : first = second := by
  have split := congrArg (List.splitOn separator) same
  rw [List.splitOn_intercalate separator firstFree firstNonempty,
    List.splitOn_intercalate separator secondFree secondNonempty] at split
  exact split

/-- Splitting what was joined splits every piece. -/
theorem splitOn_intercalate_eq_flatMap {pieces : List (List α)} (nonempty : pieces ≠ []) :
    ([separator].intercalate pieces).splitOn separator =
      pieces.flatMap (List.splitOn separator) := by
  induction pieces with
  | nil => contradiction
  | cons piece rest ih =>
    cases rest with
    | nil => simp
    | cons next rest =>
      rw [List.intercalate_cons_cons, List.append_assoc, List.singleton_append,
        List.splitOn_append_cons_self, ih (List.cons_ne_nil next rest)]
      rfl

theorem flatMap_splitOn_eq_self {pieces : List (List α)}
    (free : ∀ piece ∈ pieces, separator ∉ piece) :
    pieces.flatMap (List.splitOn separator) = pieces := by
  induction pieces with
  | nil => rfl
  | cons piece rest ih =>
    obtain ⟨first, later⟩ := List.forall_mem_cons.mp free
    rw [List.flatMap_cons, List.splitOn_eq_singleton first, ih later, List.singleton_append]

end Pieces

namespace Hex

/-- The value of a digit. -/
def digitValue (digit : Char) : Nat :=
  if digit.toNat < 58 then digit.toNat - 48 else digit.toNat - 55

/-- The value of some digits, most significant first. -/
def valueOf (digits : List Char) : Nat :=
  digits.foldl (fun value digit => 16 * value + digitValue digit) 0

private theorem digitValue_digit (value : Nat) : digitValue (digit value) = value % 16 := by
  have each : ∀ nibble : Fin 16, digitValue (digit nibble) = nibble := by decide
  have here := each ⟨value % 16, Nat.mod_lt value (by decide)⟩
  simpa only [digit, Nat.mod_mod] using here

private theorem isAlphanum_digit (value : Nat) : (digit value).isAlphanum = true := by
  have each : ∀ nibble : Fin 16, (digit nibble).isAlphanum = true := by decide
  have here := each ⟨value % 16, Nat.mod_lt value (by decide)⟩
  simpa only [digit, Nat.mod_mod] using here

private theorem valueOf_concat (digits : List Char) (digit : Char) :
    valueOf (digits ++ [digit]) = 16 * valueOf digits + digitValue digit := by
  simp [valueOf]

private theorem valueOf_lowDigits (width value : Nat) :
    valueOf (lowDigits width value) = value % 16 ^ width := by
  induction width generalizing value with
  | zero => simp [lowDigits, valueOf, Nat.mod_one]
  | succ width ih =>
    rw [lowDigits, valueOf_concat, ih, digitValue_digit, Nat.pow_succ', Nat.mod_mul]
    exact Nat.add_comm _ _

private theorem lt_pow_digitCount (value : Nat) : value < 16 ^ digitCount value := by
  have bits : value.log2 + 1 ≤ 4 * digitCount value := by
    unfold digitCount
    omega
  calc value < 2 ^ (value.log2 + 1) := Nat.lt_log2_self
    _ ≤ 2 ^ (4 * digitCount value) := Nat.pow_le_pow_right (by decide) bits
    _ = 16 ^ digitCount value := Nat.pow_mul 2 4 _

/-- The number that a numeral stands for. -/
theorem valueOf_drop_numeral (width value : Nat) :
    valueOf ((numeral width value).drop 2) = value := by
  have enough : 16 ^ digitCount value ≤ 16 ^ max width (digitCount value) :=
    Nat.pow_le_pow_right (by decide) (Nat.le_max_right _ _)
  have fits := Nat.lt_of_lt_of_le (lt_pow_digitCount value) enough
  exact (valueOf_lowDigits _ value).trans (Nat.mod_eq_of_lt fits)

theorem eq_of_numeral_eq {width first second : Nat}
    (same : numeral width first = numeral width second) : first = second := by
  rw [← valueOf_drop_numeral width first, same, valueOf_drop_numeral]

private theorem isAlphanum_of_mem_lowDigits {width value : Nat} {character : Char}
    (mem : character ∈ lowDigits width value) : character.isAlphanum = true := by
  induction width generalizing value with
  | zero => contradiction
  | succ width ih =>
    rcases List.mem_append.mp mem with earlier | last
    · exact ih earlier
    · rw [List.mem_singleton.mp last]
      exact isAlphanum_digit value

theorem isAlphanum_of_mem_numeral {width value : Nat} {character : Char}
    (mem : character ∈ numeral width value) : character.isAlphanum = true := by
  rcases List.mem_cons.mp mem with rfl | mem
  · decide
  · rcases List.mem_cons.mp mem with rfl | mem
    · decide
    · exact isAlphanum_of_mem_lowDigits mem

theorem blank_not_mem_numeral (width value : Nat) : ' ' ∉ numeral width value := by
  intro mem
  have := isAlphanum_of_mem_numeral mem
  contradiction

theorem newline_not_mem_numeral (width value : Nat) : '\n' ∉ numeral width value := by
  intro mem
  have := isAlphanum_of_mem_numeral mem
  contradiction

end Hex

namespace Hexdump

/-- Some numbers as columns. -/
def numerals (values : List Nat) : List (List Char) := values.map (Hex.numeral 4)

/-- A range as columns. -/
def rangeColumns (first last : Nat) : List (List Char) :=
  [Hex.numeral 4 first, ['-'], Hex.numeral 4 last, [':']]

theorem entries_eq_flatMap (values : List Nat) :
    entries values = (numerals values).flatMap (' ' :: ·) := by
  simp [entries, numerals, List.flatMap_map]

theorem range_append_flatMap (first last : Nat) (columns : List (List Char)) :
    range first last ++ columns.flatMap (' ' :: ·) =
      [' '].intercalate (rangeColumns first last ++ columns) := by
  simp [range, rangeColumns, intercalate_cons_eq_append_flatMap]

theorem eq_of_numerals_eq {first second : List Nat} (same : numerals first = numerals second) :
    first = second :=
  (List.map_inj_right fun _ _ => Hex.eq_of_numeral_eq).mp same

theorem blank_not_mem_numerals (values : List Nat) : ∀ column ∈ numerals values, ' ' ∉ column := by
  intro column mem
  obtain ⟨value, -, rfl⟩ := List.mem_map.mp mem
  exact Hex.blank_not_mem_numeral 4 value

theorem blank_not_mem_rangeColumns (first last : Nat) :
    ∀ column ∈ rangeColumns first last, ' ' ∉ column := by
  simp [rangeColumns, Hex.blank_not_mem_numeral]

theorem newline_not_mem_range (first last : Nat) : '\n' ∉ range first last := by
  simp [range, Hex.newline_not_mem_numeral]

theorem newline_not_mem_entries (values : List Nat) : '\n' ∉ entries values := by
  simp [entries, Hex.newline_not_mem_numeral]

/-- The numbers of a line can be read from it. -/
theorem eq_of_entries_eq {first second : List Nat} (same : entries first = entries second) :
    first = second := by
  rw [entries_eq_flatMap, entries_eq_flatMap] at same
  have free : ∀ values, ∀ column ∈ [] :: numerals values, ' ' ∉ column := by
    intro values
    simpa using blank_not_mem_numerals values
  have columns : ([] : List Char) :: numerals first = [] :: numerals second := by
    apply eq_of_intercalate_eq (free first) (free second) (by simp) (by simp)
    rw [intercalate_cons_eq_append_flatMap, intercalate_cons_eq_append_flatMap, same]
  exact eq_of_numerals_eq (List.tail_eq_of_cons_eq columns)

private theorem eq_of_truth_append_eq {first second : Bool} {firstRest secondRest : List Char}
    (same : truth first ++ firstRest = truth second ++ secondRest) : first = second := by
  cases first <;> cases second <;> simp_all [truth]

/-- The truth values of a line can be read from it. The padding of a value is missing at the end of
a line, so it has to be known where the line ends. -/
theorem eq_of_truths_eq {first second : List Bool} (lengths : first.length = second.length)
    (same : truths first = truths second) : first = second := by
  induction first generalizing second with
  | nil => exact (List.length_eq_zero_iff.mp lengths.symm).symm
  | cons value rest ih =>
    obtain ⟨other, others, rfl⟩ := List.exists_cons_of_length_eq_add_one lengths.symm
    cases rest with
    | nil =>
      obtain rfl := List.length_eq_zero_iff.mp (Nat.succ.inj lengths.symm)
      have word := List.tail_eq_of_cons_eq same
      rw [← List.append_nil (truth value), ← List.append_nil (truth other)] at word
      rw [eq_of_truth_append_eq word]
    | cons next rest =>
      obtain ⟨another, others, rfl⟩ :=
        List.exists_cons_of_length_eq_add_one (Nat.succ.inj lengths.symm)
      simp only [truths, List.cons_append, List.append_assoc, List.cons.injEq, true_and] at same
      obtain rfl := eq_of_truth_append_eq same
      have later := List.append_cancel_left (List.append_cancel_left same)
      rw [ih (Nat.succ.inj lengths) later]

theorem newline_not_mem_truths (values : List Bool) : '\n' ∉ truths values := by
  fun_induction truths values with
  | case1 => simp
  | case2 value => cases value <;> simp [truth]
  | case3 value values _ ih => cases value <;> simp [truth, ih]

section Groups

variable {α : Type} {size : Nat}

/-- The sizes of the groups depend on the number of entries only. -/
theorem map_length_groupsOf_congr (size : Nat) {first second : List α}
    (lengths : first.length = second.length) :
    (groupsOf size first).map List.length = (groupsOf size second).map List.length := by
  fun_induction groupsOf size first generalizing second with
  | case1 => rw [List.length_eq_zero_iff.mp lengths.symm, groupsOf, List.map_nil]
  | case2 entry entries ih =>
    obtain ⟨other, others, rfl⟩ := List.exists_cons_of_length_eq_add_one lengths.symm
    have fewer : entries.length = others.length := Nat.succ.inj lengths
    have rest : (entries.drop (size - 1)).length = (others.drop (size - 1)).length := by
      rw [List.length_drop, List.length_drop, fewer]
    rw [groupsOf, List.map_cons, List.map_cons, ih rest]
    simp only [List.length_cons, List.length_take, fewer]

private theorem length_groupsOf (positive : 0 < size) {count : Nat} {entries : List α}
    (full : entries.length = count * size) : (groupsOf size entries).length = count := by
  fun_induction groupsOf size entries generalizing count with
  | case1 =>
    rcases Nat.mul_eq_zero.mp full.symm with none | none
    · exact none.symm
    · omega
  | case2 entry entries ih =>
    cases count with
    | zero => simp at full
    | succ count =>
      have rest : (entries.drop (size - 1)).length = count * size := by
        rw [List.length_cons, Nat.succ_mul] at full
        rw [List.length_drop]
        omega
      rw [List.length_cons, ih rest]

theorem length_of_mem_groupsOf (positive : 0 < size) {entries : List α}
    (full : size ∣ entries.length) : ∀ group ∈ groupsOf size entries, group.length = size := by
  fun_induction groupsOf size entries with
  | case1 => simp
  | case2 entry entries ih =>
    have enough : size ≤ entries.length + 1 := Nat.le_of_dvd (Nat.succ_pos _) full
    rw [List.forall_mem_cons]
    constructor
    · rw [List.length_cons, List.length_take]
      omega
    · apply ih
      have rest : (entries.drop (size - 1)).length = entries.length + 1 - size := by
        rw [List.length_drop]
        omega
      rw [rest]
      exact Nat.dvd_sub full (Nat.dvd_refl size)

end Groups

section Tables

variable {α : Type} {cells : List α → List Char}

private theorem length_tableFrom (position : Nat) (groups : List (List α)) :
    (tableFrom cells position groups).length = groups.length := by
  induction groups generalizing position with
  | nil => rfl
  | cons group groups ih => rw [tableFrom, List.length_cons, ih, List.length_cons]

/-- Two tables with groups of the same sizes have the same ranges in front of their lines. -/
theorem eq_of_tableFrom_eq
    (read : ∀ {first second : List α}, first.length = second.length →
      cells first = cells second → first = second)
    {position : Nat} {first second : List (List α)}
    (sizes : first.map List.length = second.map List.length)
    (same : tableFrom cells position first = tableFrom cells position second) :
    first = second := by
  induction first generalizing position second with
  | nil => exact (List.map_eq_nil_iff.mp sizes.symm).symm
  | cons group groups ih =>
    obtain ⟨other, others, rfl⟩ : ∃ other others, second = other :: others :=
      List.exists_cons_of_ne_nil (by rintro rfl; contradiction)
    obtain ⟨size, sizes⟩ := List.cons.inj sizes
    rw [tableFrom, tableFrom, size] at same
    obtain ⟨line, lines⟩ := List.cons.inj same
    rw [read size (List.append_cancel_left line), ih sizes lines]

theorem newline_not_mem_tableFrom (cells_free : ∀ group, '\n' ∉ cells group) (position : Nat)
    (groups : List (List α)) : ∀ line ∈ tableFrom cells position groups, '\n' ∉ line := by
  induction groups generalizing position with
  | nil => simp [tableFrom]
  | cons group groups ih =>
    rw [tableFrom, List.forall_mem_cons]
    refine ⟨?_, ih _⟩
    simp [newline_not_mem_range, cells_free]

/-- A table of full lines has as many lines as there are groups of entries. -/
theorem length_table {count : Nat} {values : List α} (full : values.length = count * lineEntries) :
    (tableFrom cells 0 (groupsOf lineEntries values)).length = count := by
  rw [length_tableFrom, length_groupsOf (by decide) full]

private theorem eq_of_table_eq
    (read : ∀ {first second : List α}, first.length = second.length →
      cells first = cells second → first = second)
    {first second : List α} (lengths : first.length = second.length)
    (same : tableFrom cells 0 (groupsOf lineEntries first) =
      tableFrom cells 0 (groupsOf lineEntries second)) : first = second := by
  have groups := eq_of_tableFrom_eq read (map_length_groupsOf_congr lineEntries lengths) same
  rw [← flatten_groupsOf lineEntries first, groups, flatten_groupsOf]

end Tables

theorem eq_of_numberLines_eq {first second : List Nat} (lengths : first.length = second.length)
    (same : numberLines first = numberLines second) : first = second :=
  eq_of_table_eq (fun _ => eq_of_entries_eq) lengths same

theorem eq_of_truthLines_eq {first second : List Bool} (lengths : first.length = second.length)
    (same : truthLines first = truthLines second) : first = second :=
  eq_of_table_eq eq_of_truths_eq lengths same

end Hexdump

end Chip8
