import Mathlib.Data.List.Chain
import Chip8.Proofs.Dump

/-! # Folded memory tables

A memory table has one row for each run of lines that hold zeros only, and one row for each other
line. `Hexdump.Tiles` is the invariant of the fold: the rows so far show the image from some line
on, each of them its own lines. `Hexdump.rows_fold_zero_runs` collects what a reader of the table
may rely on: where rows begin and end, which of them are filled in, and how they become a text.
-/

namespace Chip8.Hexdump

/-- All sixteen bytes of a line are there and are zero. -/
def IsZeroLine (bytes : List UInt8) (line : Nat) : Prop :=
  ∀ k < 16, bytes[16 * line + k]? = some 0

/-- The lines from `start` to in front of `stop` are zeros, and those around them are not. -/
structure IsZeroRun (bytes : List UInt8) (start stop : Nat) : Prop where
  zeros : ∀ line, start ≤ line → line < stop → IsZeroLine bytes line
  before : ∀ line, line + 1 = start → ¬ IsZeroLine bytes line
  behind : ¬ IsZeroLine bytes stop

/-- The number that two neighbouring bytes make up, the high one first. -/
def wordAt (bytes : List UInt8) (address : Nat) : Nat :=
  256 * (bytes[address]?.getD 0).toNat + (bytes[address + 1]?.getD 0).toNat

/-- The eight numbers of a line. -/
def lineNumbers (bytes : List UInt8) (line : Nat) : List Nat :=
  (List.range 8).map fun k => wordAt bytes (16 * line + 2 * k)

namespace Row

/-- The addresses in the range of a row. -/
def addresses (row : Row) : List Nat := List.range' row.first (row.last + 1 - row.first)

/-- The text of a row has the filler in it. -/
def ShowsFiller (row : Row) : Prop := row.text = range row.first row.last ++ filler

/-- A row shows the lines of an image from `start` to in front of `stop`. -/
structure Shows (row : Row) (bytes : List UInt8) (start stop : Nat) : Prop where
  first : row.first = 16 * start
  last : row.last + 1 = 16 * stop
  ordered : start < stop
  zeros : row.isZero → ∀ line, start ≤ line → line < stop → IsZeroLine bytes line
  numbers : ¬ row.isZero → stop = start + 1 ∧ row.words.map UInt16.toNat = lineNumbers bytes start

/-- Of two neighbouring rows at most one has the filler in it. -/
def Apart (row next : Row) : Prop := ¬ (row.ShowsFiller ∧ next.ShowsFiller)

end Row

/-- Rows that show an image from a line on to its end, one behind the other. -/
def Tiles (bytes : List UInt8) : (line : Nat) → List Row → Prop
  | line, [] => bytes.length = 16 * line
  | line, row :: rows => ∃ stop, row.Shows bytes line stop ∧ Tiles bytes stop rows

/-- The table of an image as one text, with some tabs in front of each line. -/
def memoryText (indent : Nat) (bytes : List UInt8) : List Char :=
  ['\n'].intercalate ((memoryLines bytes).map (List.replicate indent '\t' ++ ·))

variable {bytes : List UInt8} {line start stop : Nat} {row next : Row} {rows : List Row}

private theorem dot_not_mem_entries (values : List Nat) : '.' ∉ entries values := by
  intro mem
  obtain ⟨value, -, here⟩ := List.mem_flatMap.mp mem
  obtain blank | digit := List.mem_cons.mp here
  · contradiction
  · have := Hex.isAlphanum_of_mem_numeral digit
    contradiction

/-- The filler is not mistaken for numbers. -/
theorem Row.showsFiller_iff (row : Row) : row.ShowsFiller ↔ row.isZero := by
  unfold ShowsFiller text
  by_cases zero : row.isZero = true
  · simp only [zero, if_true]
  · simp only [zero, Bool.false_eq_true, if_false, iff_false]
    intro same
    have numbers := List.append_cancel_left same
    have dot : '.' ∈ filler := by decide
    rw [← numbers] at dot
    exact dot_not_mem_entries _ dot

private theorem wordsOf_eq_map_wordAt {count : Nat} {part : List UInt8}
    (even : part.length = 2 * count) :
    (wordsOf part).map UInt16.toNat = (List.range count).map fun k => wordAt part (2 * k) := by
  fun_induction wordsOf part generalizing count with
  | case1 high low part ih =>
    cases count with
    | zero => contradiction
    | succ count =>
      have fewer : part.length = 2 * count := by
        simp only [List.length_cons] at even
        omega
      rw [List.map_cons, ih fewer, Word.toNat_ofBytes, List.range_succ_eq_map, List.map_cons,
        List.map_map]
      rfl
  | case2 byte =>
    simp only [List.length_singleton] at even
    omega
  | case3 =>
    obtain rfl : count = 0 := by
      simp only [List.length_nil] at even
      omega
    rfl

private theorem Row.shows_line {front behind part : List UInt8} (begins : front.length = 16 * line)
    (full : part.length = 16) :
    Shows ⟨16 * line, 16 * line + part.length - 1, wordsOf part⟩ (front ++ (part ++ behind))
      line (line + 1) := by
  have here {k : Nat} (inside : k < 16) :
      (front ++ (part ++ behind))[16 * line + k]? = part[k]? := by
    rw [← begins, List.getElem?_append_right (Nat.le_add_right ..), Nat.add_sub_cancel_left,
      List.getElem?_append_left (by omega)]
  refine ⟨rfl, ?last, Nat.lt_succ_self line, ?zeros, ?numbers⟩
  case last =>
    change 16 * line + part.length - 1 + 1 = 16 * (line + 1)
    omega
  case zeros =>
    intro zero other low high
    obtain rfl : other = line := by omega
    have zeros : part = List.replicate part.length 0 :=
      eq_replicate_of_wordsOf (by rw [full]; decide) zero
    intro k inside
    rw [here inside, zeros, List.getElem?_replicate_of_lt (by omega)]
  case numbers =>
    intro _
    have even : part.length = 2 * 8 := full
    refine ⟨rfl, ?_⟩
    rw [wordsOf_eq_map_wordAt even]
    apply List.map_congr_left
    intro k mem
    have bound := List.mem_range.mp mem
    rw [wordAt, wordAt, Nat.add_assoc, here (by omega), here (by omega)]

/-- A row of other numbers is of a line that is not zeros only. -/
theorem Row.Shows.not_isZeroLine (shows : row.Shows bytes start stop) (other : ¬ row.isZero) :
    ¬ IsZeroLine bytes start := by
  intro zeros
  apply other
  obtain ⟨-, numbers⟩ := shows.numbers other
  apply List.all_eq_true.mpr
  intro word mem
  have listed : word.toNat ∈ lineNumbers bytes start := numbers ▸ List.mem_map_of_mem mem
  obtain ⟨k, bound, value⟩ := List.mem_map.mp listed
  have bound := List.mem_range.mp bound
  have high : bytes[16 * start + 2 * k]? = some 0 := zeros (2 * k) (by omega)
  have low : bytes[16 * start + (2 * k + 1)]? = some 0 := zeros (2 * k + 1) (by omega)
  have zero : word.toNat = 0 := by
    rw [← value, wordAt, Nat.add_assoc, high, low]
    rfl
  obtain rfl : word = 0 := UInt16.toNat_inj.mp zero
  rfl

/-- Two neighbouring rows of zeros show together what the one shows that they become. -/
theorem tiles_join (shows : row.Shows bytes start stop) (tiles : Tiles bytes stop rows) :
    Tiles bytes start (join row rows) := by
  cases rows with
  | nil => exact ⟨stop, shows, tiles⟩
  | cons next rows =>
    obtain ⟨nextStop, nextShows, later⟩ := tiles
    rw [join]
    split
    next both =>
      obtain ⟨zero, nextZero⟩ := Bool.and_eq_true_iff.mp both
      refine ⟨nextStop, ⟨shows.first, nextShows.last, ?_, ?_, fun other => absurd nextZero other⟩,
        later⟩
      · exact Nat.lt_trans shows.ordered nextShows.ordered
      · intro _ line low high
        by_cases early : line < stop
        · exact shows.zeros zero line low early
        · exact nextShows.zeros nextZero line (Nat.le_of_not_lt early) high
    next => exact ⟨stop, shows, nextStop, nextShows, later⟩

/-- A row that is put in front keeps apart from the others, since it would have become one with a
row of its kind, and what the two become is as much zero as the second of them was. -/
theorem isChain_join (chain : rows.IsChain Row.Apart) : (join row rows).IsChain Row.Apart := by
  cases rows with
  | nil => exact List.isChain_singleton row
  | cons next rows =>
    rw [join]
    split
    next both =>
      cases chain with
      | singleton => exact List.isChain_singleton _
      | cons_cons apart chain =>
        refine .cons_cons ?_ chain
        rw [Row.Apart, Row.showsFiller_iff] at apart ⊢
        exact apart
    next alone =>
      refine .cons_cons ?_ chain
      rw [Row.Apart, Row.showsFiller_iff, Row.showsFiller_iff, ← Bool.and_eq_true_iff]
      exact alone

private theorem tiles_foldr_join {lines : List (List UInt8)}
    (full : ∀ line ∈ lines, line.length = 16) (front : List UInt8)
    (begins : front.length = 16 * start) :
    Tiles (front ++ lines.flatten) start ((linesFrom (16 * start) lines).foldr join []) := by
  induction lines generalizing front start with
  | nil =>
    change (front ++ []).length = 16 * start
    rw [List.append_nil, begins]
  | cons part lines ih =>
    obtain ⟨partFull, full⟩ := List.forall_mem_cons.mp full
    have next : 16 * start + part.length = 16 * (start + 1) := by omega
    have nextBegins : (front ++ part).length = 16 * (start + 1) := by
      rw [List.length_append]
      omega
    have later := ih full (front ++ part) nextBegins
    rw [List.append_assoc, ← next] at later
    rw [linesFrom, List.foldr_cons, List.flatten_cons]
    exact tiles_join (Row.shows_line begins partFull) later

private theorem isChain_foldr_join (rows : List Row) : (rows.foldr join []).IsChain Row.Apart := by
  induction rows with
  | nil => exact .nil
  | cons row rows ih => exact isChain_join ih

private theorem tiles_rows (full : 16 ∣ bytes.length) : Tiles bytes 0 (Hexdump.rows bytes) := by
  have lines : ∀ line ∈ groupsOf lineBytes bytes, line.length = 16 :=
    length_of_mem_groupsOf (by decide) full
  have begins : ([] : List UInt8).length = 16 * 0 := rfl
  have tiles := tiles_foldr_join lines [] begins
  rwa [List.nil_append, flatten_groupsOf] at tiles

private theorem Row.Shows.addresses_eq (shows : row.Shows bytes start stop) :
    row.addresses = List.range' (16 * start) (16 * (stop - start)) := by
  have size : row.last + 1 - row.first = 16 * (stop - start) := by
    rw [shows.first, shows.last]
    omega
  rw [addresses, size, shows.first]

/-- The filler stands for zeros and for nothing else. -/
theorem Row.Shows.showsFiller_iff (shows : row.Shows bytes start stop) :
    row.ShowsFiller ↔ ∀ address ∈ row.addresses, bytes[address]? = some 0 := by
  rw [Row.showsFiller_iff, shows.addresses_eq]
  have ordered := shows.ordered
  constructor
  · intro zero address mem
    obtain ⟨low, high⟩ := List.mem_range'_1.mp mem
    have here := shows.zeros zero (address / 16) (by omega) (by omega) (address % 16) (by omega)
    rwa [Nat.div_add_mod] at here
  · intro zeros
    by_contra other
    apply shows.not_isZeroLine other
    intro k bound
    apply zeros
    apply List.mem_range'_1.mpr
    omega

private theorem Tiles.le_length (tiles : Tiles bytes line rows) : 16 * line ≤ bytes.length := by
  induction rows generalizing line with
  | nil => exact Nat.le_of_eq (Eq.symm tiles)
  | cons row rows ih =>
    obtain ⟨stop, shows, later⟩ := tiles
    have := shows.ordered
    have := ih later
    omega

/-- The ranges of the rows, one behind the other, are the addresses of the image. -/
theorem Tiles.flatMap_addresses (tiles : Tiles bytes line rows) :
    rows.flatMap Row.addresses = List.range' (16 * line) (bytes.length - 16 * line) := by
  induction rows generalizing line with
  | nil =>
    have ended : bytes.length = 16 * line := tiles
    rw [ended, Nat.sub_self]
    rfl
  | cons row rows ih =>
    obtain ⟨stop, shows, later⟩ := tiles
    have ordered := shows.ordered
    have inside := later.le_length
    have behind : 16 * stop = 16 * line + 16 * (stop - line) := by omega
    rw [List.flatMap_cons, shows.addresses_eq, ih later, behind, List.range'_append_1]
    congr 1
    omega

private theorem Tiles.exists_shows (tiles : Tiles bytes line rows) :
    ∀ row ∈ rows, ∃ start stop, row.Shows bytes start stop := by
  induction rows generalizing line with
  | nil => simp
  | cons row rows ih =>
    obtain ⟨stop, shows, later⟩ := tiles
    exact List.forall_mem_cons.mpr ⟨⟨line, stop, shows⟩, ih later⟩

/-- Behind a row of zeros there is no line of zeros: another row begins there, or nothing. -/
theorem Tiles.not_isZeroLine (tiles : Tiles bytes line rows)
    (other : ∀ row ∈ rows.head?, ¬ row.isZero) : ¬ IsZeroLine bytes line := by
  cases rows with
  | nil =>
    intro zeros
    have ended : bytes.length = 16 * line := tiles
    have missing := zeros 0 (by decide)
    rw [List.getElem?_eq_none (by omega)] at missing
    contradiction
  | cons row rows =>
    obtain ⟨stop, shows, -⟩ := tiles
    exact shows.not_isZeroLine (other row rfl)

/-- Each row of zeros shows a whole run of lines of zeros. What is in front of the first row has to
be known, for its run might begin there. -/
theorem Tiles.isZeroRun (tiles : Tiles bytes line rows) (chain : rows.IsChain Row.Apart)
    (entered : ∀ row ∈ rows.head?, row.isZero →
      ∀ earlier, earlier + 1 = line → ¬ IsZeroLine bytes earlier) :
    ∀ row ∈ rows, row.isZero → ∃ start stop,
      row.first = 16 * start ∧ row.last + 1 = 16 * stop ∧ IsZeroRun bytes start stop := by
  induction rows generalizing line with
  | nil => simp
  | cons row rows ih =>
    obtain ⟨stop, shows, later⟩ := tiles
    obtain ⟨apart, chain⟩ := List.isChain_cons.mp chain
    simp only [Row.Apart, Row.showsFiller_iff] at apart
    rw [List.forall_mem_cons]
    constructor
    · intro zero
      refine ⟨line, stop, shows.first, shows.last, shows.zeros zero, entered row rfl zero, ?_⟩
      apply later.not_isZeroLine
      intro next mem nextZero
      exact apart next mem ⟨zero, nextZero⟩
    · apply ih later chain
      intro next mem nextZero earlier adjacent
      have other : ¬ row.isZero := fun zero => apart next mem ⟨zero, nextZero⟩
      obtain ⟨single, -⟩ := shows.numbers other
      obtain rfl : earlier = line := by omega
      exact shows.not_isZeroLine other

private theorem Row.Shows.text_eq (shows : row.Shows bytes start stop) (other : ¬ row.isZero) :
    row.last = row.first + 15 ∧
      row.text = range row.first row.last ++ entries (lineNumbers bytes start) := by
  obtain ⟨single, numbers⟩ := shows.numbers other
  have first := shows.first
  have last := shows.last
  refine ⟨by omega, ?_⟩
  rw [text, if_neg other, numbers]

private theorem rows_ne_nil (nonempty : bytes ≠ []) (full : 16 ∣ bytes.length) :
    Hexdump.rows bytes ≠ [] := by
  intro none
  have tiles := tiles_rows full
  rw [none] at tiles
  exact nonempty (List.length_eq_zero_iff.mp tiles)

private theorem splitOn_memoryText (nonempty : bytes ≠ []) (full : 16 ∣ bytes.length)
    (indent : Nat) :
    (memoryText indent bytes).splitOn '\n' =
      (Hexdump.rows bytes).map fun row => List.replicate indent '\t' ++ row.text := by
  have lines : (memoryLines bytes).map (List.replicate indent '\t' ++ ·) =
      (Hexdump.rows bytes).map fun row => List.replicate indent '\t' ++ row.text := by
    rw [memoryLines, List.map_map]
    rfl
  rw [memoryText, lines, List.splitOn_intercalate]
  · rw [List.forall_mem_map]
    intro row _
    simp [row.newline_not_mem_text]
  · simpa using rows_ne_nil nonempty full

/-- No line of the table is empty, so the text does not end with a line break. -/
theorem getLast?_memoryText (nonempty : bytes ≠ []) (full : 16 ∣ bytes.length) (indent : Nat) :
    (memoryText indent bytes).getLast? ≠ some '\n' := by
  intro ended
  obtain ⟨front, text⟩ := List.getLast?_eq_some_iff.mp ended
  have lines := splitOn_memoryText nonempty full indent
  rw [text, List.splitOn_append_cons_self, List.splitOn_nil] at lines
  have mem : [] ∈ front.splitOn '\n' ++ [[]] := by simp
  rw [lines] at mem
  obtain ⟨row, -, none⟩ := List.mem_map.mp mem
  simp [Row.text, range, Hex.numeral] at none

/-- The lines of the memory table stand in a dump between their title and the next one. -/
theorem lines_eq_append_memoryLines (console : Console) : ∃ front behind,
    front ≠ [] ∧ behind ≠ [] ∧ Dump.lines console = front ++ (["\tMemory :".toList] ++
      ((memoryLines console.machine.memory.toList).map (List.replicate 2 '\t' ++ ·) ++
        (["\tKeyboard :".toList] ++ behind))) := by
  let machine := console.machine
  let keypad := (truthLines machine.keypad.toList).map fun line => '\t' :: '\t' :: line
  refine ⟨Dump.heading ++ ([Dump.nameLine console] ++ Dump.numbers machine),
    keypad ++ (Dump.stackTable machine ++ (Dump.registerTable machine ++
      (Dump.screenTable machine ++ ["\x7d".toList]))), by simp, by simp, ?_⟩
  rw [Dump.lines_eq_append]
  simp only [List.append_assoc]
  rfl

/-- The text of the memory table stands in a dump between its title and the next one. -/
theorem characters_eq_append_memoryText (console : Console) : ∃ front behind,
    Dump.characters console = front ++ "\tMemory :\n".toList ++
      memoryText 2 console.machine.memory.toList ++ "\n\tKeyboard :\n".toList ++ behind := by
  have size : console.machine.memory.toList.length = 4096 := Vector.length_toList
  have nonempty : console.machine.memory.toList ≠ [] := List.ne_nil_of_length_pos (by omega)
  have full : 16 ∣ console.machine.memory.toList.length := by
    rw [size]
    decide
  have shown :
      (memoryLines console.machine.memory.toList).map (List.replicate 2 '\t' ++ ·) ≠ [] := by
    simpa only [memoryLines, ne_eq, List.map_eq_nil_iff] using rows_ne_nil nonempty full
  obtain ⟨front, behind, someFront, someBehind, lines⟩ := lines_eq_append_memoryLines console
  refine ⟨['\n'].intercalate front ++ ['\n'], ['\n'].intercalate behind, ?_⟩
  rw [Dump.characters, lines, intercalate_append someFront (by simp),
    intercalate_append (List.cons_ne_nil _ _) (by simp), intercalate_append shown (by simp),
    intercalate_append (List.cons_ne_nil _ _) someBehind]
  simp only [memoryText, List.intercalate_singleton, List.append_assoc]
  rfl

/-- A memory table shows an image of whole lines, however zeros and other bytes are spread over it.

The ranges of the rows go through the addresses of the image in order, each address once. A row has
the filler in it exactly if there are only zeros in its range; then it is a whole run of lines of
zeros, and the row behind it is of another kind. Every other row is of one line and lists the eight
numbers of it. The text has one line for each row and does not end with a line break; with two tabs
in front of each line it is what a dump has under the title of the memory. -/
theorem rows_fold_zero_runs (nonempty : bytes ≠ []) (full : 16 ∣ bytes.length) (indent : Nat) :
    Row.Contiguous 0 (Hexdump.rows bytes) ∧
    (Hexdump.rows bytes).flatMap Row.addresses = List.range bytes.length ∧
    (∀ row ∈ Hexdump.rows bytes,
      (row.ShowsFiller ↔ ∀ address ∈ row.addresses, bytes[address]? = some 0) ∧
      (row.ShowsFiller → ∃ start stop,
        row.first = 16 * start ∧ row.last + 1 = 16 * stop ∧ IsZeroRun bytes start stop) ∧
      (¬ row.ShowsFiller → ∃ line, row.first = 16 * line ∧ row.last = 16 * line + 15 ∧
        row.text = range row.first row.last ++ entries (lineNumbers bytes line))) ∧
    (Hexdump.rows bytes).IsChain (fun row next => ¬ (row.ShowsFiller ∧ next.ShowsFiller)) ∧
    (memoryText indent bytes).splitOn '\n' =
      (Hexdump.rows bytes).map (fun row => List.replicate indent '\t' ++ row.text) ∧
    (memoryText indent bytes).getLast? ≠ some '\n' ∧
    ∀ console : Console, console.machine.memory.toList = bytes → ∃ front behind,
      Dump.characters console = front ++ "\tMemory :\n".toList ++ memoryText 2 bytes ++
        "\n\tKeyboard :\n".toList ++ behind := by
  have tiles := tiles_rows full
  have chain : (Hexdump.rows bytes).IsChain Row.Apart := isChain_foldr_join _
  refine ⟨contiguous_rows full, ?addresses, ?rows, chain, splitOn_memoryText nonempty full indent,
    getLast?_memoryText nonempty full indent, ?dump⟩
  case addresses =>
    rw [tiles.flatMap_addresses, List.range_eq_range']
    rfl
  case rows =>
    intro row mem
    obtain ⟨start, stop, shows⟩ := tiles.exists_shows row mem
    refine ⟨shows.showsFiller_iff, ?_, ?_⟩
    · intro filled
      have nothing : ∀ earlier, earlier + 1 = 0 → ¬ IsZeroLine bytes earlier := by
        intro earlier before
        contradiction
      exact tiles.isZeroRun chain (fun _ _ _ => nothing) row mem (row.showsFiller_iff.mp filled)
    · intro other
      obtain ⟨size, text⟩ := shows.text_eq (row.showsFiller_iff.not.mp other)
      exact ⟨start, shows.first, by rw [size, shows.first], text⟩
  case dump =>
    intro console same
    rw [← same]
    exact characters_eq_append_memoryText console

/-- Four lines of which only the third one has something in it. -/
def gappedImage : List UInt8 := List.replicate 33 0 ++ 7 :: List.replicate 30 0

/-- Zeros at the start and at the end of an image are folded like others. -/
theorem rows_fold_zero_runs_gappedImage :
    gappedImage ≠ [] ∧ 16 ∣ gappedImage.length ∧
      IsZeroRun gappedImage 0 2 ∧ IsZeroRun gappedImage 3 4 ∧
      (memoryText 2 gappedImage).splitOn '\n' = [
        "\t\t0x0000 - 0x001F : 0x0000                    ...                    0x0000",
        "\t\t0x0020 - 0x002F : 0x0007 0x0000 0x0000 0x0000 0x0000 0x0000 0x0000 0x0000",
        "\t\t0x0030 - 0x003F : 0x0000                    ...                    0x0000"
      ].map String.toList := by
  have nonempty : gappedImage ≠ [] := by decide
  have full : 16 ∣ gappedImage.length := by decide
  have shown : Hexdump.rows gappedImage = [⟨0, 31, List.replicate 8 0⟩,
      ⟨32, 47, 7 :: List.replicate 7 0⟩, ⟨48, 63, List.replicate 8 0⟩] := by
    decide +kernel
  obtain ⟨-, -, each, -, lines, -⟩ := rows_fold_zero_runs nonempty full 2
  simp only [shown, List.forall_mem_cons] at each
  obtain ⟨⟨-, first, -⟩, -, ⟨-, third, -⟩, -⟩ := each
  obtain ⟨start, stop, begins, ends, leading⟩ := first ((Row.showsFiller_iff _).mpr rfl)
  obtain ⟨rfl, rfl⟩ : start = 0 ∧ stop = 2 := by omega
  obtain ⟨start, stop, begins, ends, trailing⟩ := third ((Row.showsFiller_iff _).mpr rfl)
  obtain ⟨rfl, rfl⟩ : start = 3 ∧ stop = 4 := by omega
  refine ⟨nonempty, full, leading, trailing, lines.trans ?_⟩
  rw [shown]
  decide +kernel

end Chip8.Hexdump
