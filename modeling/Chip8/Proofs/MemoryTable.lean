import Chip8.Proofs.Cycle
import Chip8.Proofs.Tables

/-! # Reading memory back

Every row of a memory table stands for some bytes: a row of zeros for as many zeros as there are
addresses in its range, every other row for its words. Folding rows of zeros into one does not
change what the rows stand for, because the rows follow one another without gaps, and
`flatMap_bytes_rows` says that they stand for the memory image itself.
-/

namespace Chip8.Hexdump

/-- The two bytes of a word, the high one first. -/
def bytesOf (word : Word) : List UInt8 := [UInt8.ofNat (word.toNat / 256), UInt8.ofNat word.toNat]

private theorem bytesOf_ofBytes (high low : UInt8) :
    bytesOf (Word.ofBytes high low) = [high, low] := by
  have highBound := high.toNat_lt
  have lowBound := low.toNat_lt
  have top : (256 * high.toNat + low.toNat) / 256 = high.toNat := by omega
  have bottom : UInt8.ofNat (256 * high.toNat + low.toNat) = low := by
    apply UInt8.toNat_inj.mp
    rw [UInt8.toNat_ofNat']
    omega
  rw [bytesOf, Word.toNat_ofBytes, top, bottom, UInt8.ofNat_toNat]

theorem ofBytes_bytesOf (word : Word) :
    Word.ofBytes (UInt8.ofNat (word.toNat / 256)) (UInt8.ofNat word.toNat) = word := by
  have bound := word.toNat_lt
  apply UInt16.toNat_inj.mp
  rw [Word.toNat_ofBytes, UInt8.toNat_ofNat', UInt8.toNat_ofNat']
  omega

private theorem flatMap_bytesOf_wordsOf {bytes : List UInt8} (even : 2 ∣ bytes.length) :
    (wordsOf bytes).flatMap bytesOf = bytes := by
  fun_induction wordsOf bytes with
  | case1 high low bytes ih =>
    have fewer : 2 ∣ bytes.length := (Nat.dvd_add_left (Nat.dvd_refl 2)).mp even
    rw [List.flatMap_cons, bytesOf_ofBytes, ih fewer]
    rfl
  | case2 byte => simp at even
  | case3 => rfl

theorem eq_replicate_of_wordsOf {line : List UInt8} (even : 2 ∣ line.length)
    (zeros : (wordsOf line).all (· == 0) = true) : line = List.replicate line.length 0 := by
  apply List.eq_replicate_iff.mpr
  refine ⟨rfl, ?_⟩
  intro byte mem
  rw [← flatMap_bytesOf_wordsOf even] at mem
  obtain ⟨word, wordMem, byteMem⟩ := List.mem_flatMap.mp mem
  obtain rfl := eq_of_beq (List.all_eq_true.mp zeros word wordMem)
  simpa [bytesOf] using byteMem

namespace Row

variable {row : Row} {rows : List Row} {address : Nat}

/-- The bytes that a row stands for. -/
def bytes (row : Row) : List UInt8 :=
  if row.isZero then List.replicate (row.last + 1 - row.first) 0 else row.words.flatMap bytesOf

/-- Rows that follow one another without gaps from an address on. -/
def Contiguous : (address : Nat) → List Row → Prop
  | _, [] => True
  | address, row :: rows =>
    row.first = address ∧ row.first ≤ row.last ∧ Contiguous (row.last + 1) rows

private theorem contiguous_join (first : row.first = address) (ordered : row.first ≤ row.last)
    (contiguous : Contiguous (row.last + 1) rows) : Contiguous address (join row rows) := by
  cases rows with
  | nil => exact ⟨first, ordered, trivial⟩
  | cons next rows =>
    obtain ⟨nextFirst, nextOrdered, later⟩ := contiguous
    rw [join]
    split
    · refine ⟨first, ?_, later⟩
      change row.first ≤ next.last
      omega
    · exact ⟨first, ordered, nextFirst, nextOrdered, later⟩

/-- Two neighbouring rows of zeros stand for the same bytes as the one that they become. -/
theorem flatMap_bytes_join (ordered : row.first ≤ row.last)
    (contiguous : Contiguous (row.last + 1) rows) :
    (join row rows).flatMap bytes = row.bytes ++ rows.flatMap bytes := by
  cases rows with
  | nil => simp [join]
  | cons next rows =>
    obtain ⟨nextFirst, nextOrdered, -⟩ := contiguous
    rw [join]
    split
    next zeros =>
      obtain ⟨zero, nextZero⟩ := Bool.and_eq_true_iff.mp zeros
      have both : isZero { next with first := row.first } = true := nextZero
      have sum : next.last + 1 - row.first =
          (row.last + 1 - row.first) + (next.last + 1 - next.first) := by omega
      simp only [List.flatMap_cons, bytes, zero, nextZero, both, if_true, sum,
        ← List.replicate_append_replicate, List.append_assoc]
    next => rfl

private theorem contiguous_foldr_join (contiguous : Contiguous address rows) :
    Contiguous address (rows.foldr join []) := by
  induction rows generalizing address with
  | nil => exact trivial
  | cons row rows ih =>
    obtain ⟨first, ordered, later⟩ := contiguous
    exact contiguous_join first ordered (ih later)

private theorem flatMap_bytes_foldr_join (contiguous : Contiguous address rows) :
    (rows.foldr join []).flatMap bytes = rows.flatMap bytes := by
  induction rows generalizing address with
  | nil => rfl
  | cons row rows ih =>
    obtain ⟨-, ordered, later⟩ := contiguous
    rw [List.foldr_cons, flatMap_bytes_join ordered (contiguous_foldr_join later), ih later,
      List.flatMap_cons]

end Row

section Lines

variable {lines : List (List UInt8)}

private theorem contiguous_linesFrom (nonempty : ∀ line ∈ lines, 0 < line.length) (address : Nat) :
    Row.Contiguous address (linesFrom address lines) := by
  induction lines generalizing address with
  | nil => exact trivial
  | cons line lines ih =>
    obtain ⟨some, later⟩ := List.forall_mem_cons.mp nonempty
    have next : address + line.length - 1 + 1 = address + line.length := by omega
    refine ⟨rfl, ?_, ?_⟩
    · change address ≤ address + line.length - 1
      omega
    · change Row.Contiguous (address + line.length - 1 + 1) _
      rw [next]
      exact ih later _

private theorem flatMap_bytes_linesFrom (nonempty : ∀ line ∈ lines, 0 < line.length)
    (even : ∀ line ∈ lines, 2 ∣ line.length) (address : Nat) :
    (linesFrom address lines).flatMap Row.bytes = lines.flatten := by
  induction lines generalizing address with
  | nil => rfl
  | cons line lines ih =>
    obtain ⟨some, later⟩ := List.forall_mem_cons.mp nonempty
    obtain ⟨lineEven, laterEven⟩ := List.forall_mem_cons.mp even
    have row : Row.bytes ⟨address, address + line.length - 1, wordsOf line⟩ = line := by
      unfold Row.bytes
      split
      next zeros =>
        have size : address + line.length - 1 + 1 - address = line.length := by omega
        rw [size]
        exact (eq_replicate_of_wordsOf lineEven zeros).symm
      next => exact flatMap_bytesOf_wordsOf lineEven
    rw [linesFrom, List.flatMap_cons, row, ih later laterEven, List.flatten_cons]

end Lines

section Image

variable {bytes : List UInt8} (full : lineBytes ∣ bytes.length)
include full

/-- The rows of a memory image cover it without gaps. -/
theorem contiguous_rows : Row.Contiguous 0 (rows bytes) := by
  apply Row.contiguous_foldr_join
  apply contiguous_linesFrom
  intro line mem
  rw [length_of_mem_groupsOf (by decide) full line mem]
  decide

/-- The rows of a memory image stand for it. -/
theorem flatMap_bytes_rows : (rows bytes).flatMap Row.bytes = bytes := by
  have size := length_of_mem_groupsOf (by decide) full
  have nonempty : ∀ line ∈ groupsOf lineBytes bytes, 0 < line.length := by
    intro line mem
    rw [size line mem]
    decide
  have even : ∀ line ∈ groupsOf lineBytes bytes, 2 ∣ line.length := by
    intro line mem
    rw [size line mem]
    decide
  rw [rows, Row.flatMap_bytes_foldr_join (contiguous_linesFrom nonempty 0),
    flatMap_bytes_linesFrom nonempty even, flatten_groupsOf]

end Image

namespace Row

/-- What stands for the words of a row of zeros, as columns. -/
def fillerColumns : List (List Char) :=
  let gap := List.replicate 19 []
  Hex.numeral 4 0 :: gap ++ "...".toList :: gap ++ [Hex.numeral 4 0]

/-- The text of a row as columns. -/
def columns (row : Row) : List (List Char) :=
  rangeColumns row.first row.last ++
    if row.isZero then fillerColumns else numerals (row.words.map UInt16.toNat)

private theorem filler_eq_flatMap : filler = fillerColumns.flatMap (' ' :: ·) := by
  simp [filler, fillerColumns, List.replicate]

private theorem text_eq_intercalate (row : Row) : row.text = [' '].intercalate row.columns := by
  rw [columns, ← range_append_flatMap, text]
  split
  · rw [filler_eq_flatMap]
  · rw [entries_eq_flatMap]

private theorem blank_not_mem_columns (row : Row) : ∀ column ∈ row.columns, ' ' ∉ column := by
  unfold columns
  rw [List.forall_mem_append]
  refine ⟨blank_not_mem_rangeColumns _ _, ?_⟩
  split
  · simp [fillerColumns, Hex.blank_not_mem_numeral, List.replicate]
  · exact blank_not_mem_numerals _

/-- There is an empty column in the filler and none among numerals. -/
theorem fillerColumns_ne_numerals (values : List Nat) : fillerColumns ≠ numerals values := by
  intro same
  have mem : [] ∈ numerals values := by
    rw [← same]
    simp [fillerColumns, List.replicate]
  obtain ⟨value, -, numeral⟩ := List.mem_map.mp mem
  contradiction

theorem newline_not_mem_text (row : Row) : '\n' ∉ row.text := by
  rw [text, List.mem_append, not_or]
  refine ⟨newline_not_mem_range _ _, ?_⟩
  split
  · simp [filler, Hex.newline_not_mem_numeral]
  · exact newline_not_mem_entries _

/-- The bytes that a row stands for can be read from its text. -/
theorem bytes_eq_of_text_eq {first second : Row} (same : first.text = second.text) :
    first.bytes = second.bytes := by
  rw [text_eq_intercalate, text_eq_intercalate] at same
  have columns : first.columns = second.columns := by
    apply eq_of_intercalate_eq (blank_not_mem_columns first) (blank_not_mem_columns second)
    · simp [columns, rangeColumns]
    · simp [columns, rangeColumns]
    · exact same
  obtain ⟨ranges, contents⟩ := List.append_inj columns rfl
  simp only [rangeColumns, List.cons.injEq, true_and, and_true] at ranges
  have starts := Hex.eq_of_numeral_eq ranges.1
  have ends := Hex.eq_of_numeral_eq ranges.2
  unfold bytes
  cases firstZero : first.isZero <;> cases secondZero : second.isZero <;>
    simp only [firstZero, secondZero, if_true, Bool.false_eq_true, if_false] at contents ⊢
  case true.true => rw [starts, ends]
  case true.false => exact absurd contents (fillerColumns_ne_numerals _)
  case false.true => exact absurd contents.symm (fillerColumns_ne_numerals _)
  case false.false =>
    have values := eq_of_numerals_eq contents
    rw [(List.map_inj_right fun _ _ => UInt16.toNat_inj.mp).mp values]

private theorem flatMap_bytes_eq_of_map_text_eq {first second : List Row}
    (same : first.map text = second.map text) : first.flatMap bytes = second.flatMap bytes := by
  induction first generalizing second with
  | nil => rw [List.map_eq_nil_iff.mp same.symm]
  | cons row rows ih =>
    obtain ⟨other, others, rfl, text, texts⟩ := List.map_eq_cons_iff.mp same.symm
    rw [List.flatMap_cons, List.flatMap_cons, bytes_eq_of_text_eq text, ih texts.symm]

end Row

/-- A memory image can be read from its table. -/
theorem eq_of_memoryLines_eq {first second : List UInt8} (firstFull : lineBytes ∣ first.length)
    (secondFull : lineBytes ∣ second.length) (same : memoryLines first = memoryLines second) :
    first = second := by
  have bytes := Row.flatMap_bytes_eq_of_map_text_eq same
  rwa [flatMap_bytes_rows firstFull, flatMap_bytes_rows secondFull] at bytes

end Chip8.Hexdump
