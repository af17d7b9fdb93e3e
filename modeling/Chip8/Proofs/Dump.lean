import Chip8.Dump
import Chip8.Proofs.MemoryTable
import Chip8.Proofs.Reachable

/-! # Reading dumps back

`Console.dump_eq_iff` says that two consoles that were reached from inserted roms have the same dump
exactly when they agree on everything that a dump is meant to show.

A name is printed as it is, so it may contain line breaks and even whole lines of a dump. A dump is
therefore read from its end. The number of lines behind the memory table is fixed, and so is the
number of lines between the name and the table; where the table begins is seen from its title, which
is indented less than its lines. The depth of the stack is not printed, but no return address is
zero, and so it is seen from the zeros above.
-/

namespace Chip8

/-- Two consoles agree on the parts that a dump shows. The pending wait, the dialect and the random
source are not among them. -/
structure Console.ShowsSame (first second : Console) : Prop where
  name : first.name = second.name
  counter : first.machine.counter = second.machine.counter
  index : first.machine.index = second.machine.index
  delay : first.machine.delay = second.machine.delay
  sound : first.machine.sound = second.machine.sound
  memory : first.machine.memory = second.machine.memory
  keypad : first.machine.keypad = second.machine.keypad
  stack : first.machine.stack = second.machine.stack
  registers : first.machine.registers = second.machine.registers
  screen : first.machine.screen = second.machine.screen

namespace Dump

open Hexdump

section Titled

variable {title : String} {body first second : List (List Char)}

private theorem length_titled : (titled title body).length = body.length + 1 := by
  rw [titled, List.length_cons, List.length_map]

private theorem eq_of_titled_eq (same : titled title first = titled title second) :
    first = second := by
  apply (List.map_inj_right _).mp (List.tail_eq_of_cons_eq same)
  intro line other lines
  exact List.tail_eq_of_cons_eq (List.tail_eq_of_cons_eq lines)

private theorem newline_not_mem_titled (titleFree : '\n' ∉ title.toList)
    (bodyFree : ∀ line ∈ body, '\n' ∉ line) : ∀ line ∈ titled title body, '\n' ∉ line := by
  rw [titled, List.forall_mem_cons, List.forall_mem_map]
  constructor
  · simp [titleFree]
  · intro line mem
    simp [bodyFree line mem]

end Titled

private theorem newline_not_mem_number {title : String} (titleFree : '\n' ∉ title.toList)
    (value : Nat) : ∀ line ∈ number title value, '\n' ∉ line := by
  apply newline_not_mem_titled titleFree
  simp [Hex.newline_not_mem_numeral]

private theorem eq_of_number_eq {title : String} {first second : Nat}
    (same : number title first = number title second) : first = second :=
  Hex.eq_of_numeral_eq (List.head_eq_of_cons_eq (eq_of_titled_eq same))

/-- What follows the last title of its kind tells where the title is. -/
theorem eq_of_append_cons_eq {α : Type} {title : α} {first second firstBody secondBody : List α}
    (firstFree : title ∉ firstBody) (secondFree : title ∉ secondBody)
    (same : first ++ title :: firstBody = second ++ title :: secondBody) :
    first = second ∧ firstBody = secondBody := by
  obtain ⟨between, rfl, bodies⟩ | ⟨between, rfl, bodies⟩ := List.append_eq_append_iff.mp same
  all_goals
    cases between with
    | nil => simpa [eq_comm] using bodies
    | cons line between =>
      have inside := List.tail_eq_of_cons_eq bodies
      simp_all

private theorem eq_of_pixels_eq {first second : List Bool} (same : pixels first = pixels second) :
    first = second := by
  apply (List.map_inj_right _).mp same
  intro lit other
  cases lit <;> cases other <;> simp

private theorem newline_not_mem_pixels (row : List Bool) : '\n' ∉ pixels row := by
  intro mem
  obtain ⟨lit, -, shown⟩ := List.mem_map.mp mem
  cases lit <;> contradiction

section Stack

variable {machine first second : Machine}

private theorem length_stackEntries (room : machine.stack.length ≤ 16) :
    (stackEntries machine).length = 16 := by
  simp only [stackEntries, Machine.stackFromBottom, Machine.stackCapacity, List.length_append,
    List.length_map, List.length_reverse, List.length_replicate]
  omega

/-- The zeros above the stack begin where the stack ends. -/
theorem takeWhile_stackEntries (addresses : ∀ address ∈ machine.stack, 2 ≤ address.toNat) :
    (stackEntries machine).takeWhile (· != 0) = machine.stackFromBottom.map UInt16.toNat := by
  have stored : ∀ value ∈ machine.stackFromBottom.map UInt16.toNat, (value != 0) = true := by
    intro value mem
    obtain ⟨address, present, rfl⟩ := List.mem_map.mp mem
    have low := addresses address (List.mem_reverse.mp present)
    simp only [bne_iff_ne]
    omega
  rw [stackEntries, List.takeWhile_append_of_pos stored, List.takeWhile_replicate]
  simp

private theorem stack_eq_of_stackEntries_eq (firstRange : first.InRange)
    (secondRange : second.InRange) (same : stackEntries first = stackEntries second) :
    first.stack = second.stack := by
  have stored := congrArg (List.takeWhile (· != 0)) same
  rw [takeWhile_stackEntries fun address mem => (firstRange.addresses address mem).1,
    takeWhile_stackEntries fun address mem => (secondRange.addresses address mem).1] at stored
  have fromBottom := (List.map_inj_right fun _ _ => UInt16.toNat_inj.mp).mp stored
  exact List.reverse_inj.mp fromBottom

end Stack

/-- The lines in front of the name. -/
def heading : List (List Char) := ["Chipset \x7b".toList, '\t' :: "Program Name :".toList]

/-- The line of the name, which the name may break into several. -/
def nameLine (console : Console) : List Char := '\t' :: '\t' :: console.name.toList

/-- The lines between the name and the memory. -/
def numbers (machine : Machine) : List (List Char) :=
  number "Program Counter" machine.counter.toNat
    ++ (number "Index Register" machine.index.toNat
    ++ (number "Delay Timer" machine.delay.value
    ++ number "Sound Timer" machine.sound.value))

/-- The lines of the memory. -/
def memoryTable (machine : Machine) : List (List Char) :=
  titled "Memory" (memoryLines machine.memory.toList)

/-- The lines of the keypad. -/
def keypadTable (machine : Machine) : List (List Char) :=
  titled "Keyboard" (truthLines machine.keypad.toList)

/-- The lines of the stack. -/
def stackTable (machine : Machine) : List (List Char) :=
  titled "Stack" (numberLines (stackEntries machine))

/-- The lines of the registers. -/
def registerTable (machine : Machine) : List (List Char) :=
  titled "Register" (numberLines (machine.registers.toList.map UInt8.toNat))

/-- The lines of the screen. -/
def screenTable (machine : Machine) : List (List Char) :=
  titled "Display" (machine.screen.rows.toList.map fun row => pixels row.toList)

/-- The lines behind the memory. -/
def tables (machine : Machine) : List (List Char) :=
  keypadTable machine ++ (stackTable machine ++ (registerTable machine ++
    (screenTable machine ++ ["\x7d".toList])))

theorem lines_eq_append (console : Console) :
    lines console = heading ++ ([nameLine console] ++ (numbers console.machine ++
      (memoryTable console.machine ++ tables console.machine))) := by
  simp [lines, heading, nameLine, numbers, memoryTable, tables, keypadTable, stackTable,
    registerTable, screenTable, titled]

section Newlines

variable (machine : Machine)

private theorem newline_not_mem_numbers : ∀ line ∈ numbers machine, '\n' ∉ line := by
  simp only [numbers, List.forall_mem_append]
  refine ⟨?_, ?_, ?_, ?_⟩ <;> exact newline_not_mem_number (by decide) _

private theorem newline_not_mem_memoryTable : ∀ line ∈ memoryTable machine, '\n' ∉ line := by
  apply newline_not_mem_titled (by decide)
  intro line mem
  obtain ⟨row, -, rfl⟩ := List.mem_map.mp mem
  exact row.newline_not_mem_text

private theorem newline_not_mem_tables : ∀ line ∈ tables machine, '\n' ∉ line := by
  simp only [tables, List.forall_mem_append]
  refine ⟨?keypad, ?stack, ?registers, ?screen, by decide⟩
  case keypad =>
    exact newline_not_mem_titled (by decide) (newline_not_mem_tableFrom newline_not_mem_truths _ _)
  case stack | registers =>
    exact newline_not_mem_titled (by decide) (newline_not_mem_tableFrom newline_not_mem_entries _ _)
  case screen =>
    apply newline_not_mem_titled (by decide)
    intro line mem
    obtain ⟨row, -, rfl⟩ := List.mem_map.mp mem
    exact newline_not_mem_pixels row.toList

end Newlines

/-- The lines of a dump as they are seen in its text. -/
theorem splitOn_characters (console : Console) :
    (characters console).splitOn '\n' = heading ++ ((nameLine console).splitOn '\n' ++
      (numbers console.machine ++ (memoryTable console.machine ++ tables console.machine))) := by
  have nonempty : lines console ≠ [] := by simp [lines]
  have headingFree : ∀ line ∈ heading, '\n' ∉ line := by decide
  rw [characters, splitOn_intercalate_eq_flatMap nonempty, lines_eq_append]
  simp only [List.flatMap_append, List.flatMap_singleton, flatMap_splitOn_eq_self headingFree,
    flatMap_splitOn_eq_self (newline_not_mem_numbers _),
    flatMap_splitOn_eq_self (newline_not_mem_memoryTable _),
    flatMap_splitOn_eq_self (newline_not_mem_tables _)]

section Lengths

variable {machine : Machine}

private theorem length_keypadTable (machine : Machine) : (keypadTable machine).length = 3 := by
  have entries : machine.keypad.toList.length = 2 * lineEntries := by
    rw [Keypad.toList, Vector.length_toList]
    rfl
  rw [keypadTable, length_titled, truthLines, length_table entries]

private theorem length_stackTable (room : machine.stack.length ≤ 16) :
    (stackTable machine).length = 3 := by
  have entries : (stackEntries machine).length = 2 * lineEntries := length_stackEntries room
  rw [stackTable, length_titled, numberLines, length_table entries]

private theorem length_registerTable (machine : Machine) : (registerTable machine).length = 3 := by
  have entries : (machine.registers.toList.map UInt8.toNat).length = 2 * lineEntries := by
    rw [List.length_map, Vector.length_toList]
    rfl
  rw [registerTable, length_titled, numberLines, length_table entries]

private theorem length_screenTable (machine : Machine) : (screenTable machine).length = 33 := by
  rw [screenTable, length_titled, List.length_map, Vector.length_toList]

private theorem length_tables (room : machine.stack.length ≤ 16) :
    (tables machine).length = 43 := by
  simp only [tables, List.length_append, length_keypadTable, length_stackTable room,
    length_registerTable, length_screenTable, List.length_singleton]

end Lengths

section Sections

variable {first second : Machine}

private theorem eq_of_numbers_eq (same : numbers first = numbers second) :
    first.counter = second.counter ∧ first.index = second.index ∧
      first.delay = second.delay ∧ first.sound = second.sound := by
  obtain ⟨counter, same⟩ := List.append_inj same rfl
  obtain ⟨index, same⟩ := List.append_inj same rfl
  obtain ⟨delay, sound⟩ := List.append_inj same rfl
  exact ⟨UInt16.toNat_inj.mp (eq_of_number_eq counter), UInt16.toNat_inj.mp (eq_of_number_eq index),
    congrArg Timer.mk (eq_of_number_eq delay), congrArg Timer.mk (eq_of_number_eq sound)⟩

private theorem keypad_eq_of_keypadTable_eq (same : keypadTable first = keypadTable second) :
    first.keypad = second.keypad := by
  have lengths : first.keypad.toList.length = second.keypad.toList.length := by
    simp only [Keypad.toList, Vector.length_toList]
  have keys := eq_of_truthLines_eq lengths (eq_of_titled_eq same)
  exact congrArg Keypad.mk (Vector.toList_inj.mp keys)

private theorem stack_eq_of_stackTable_eq (firstRange : first.InRange)
    (secondRange : second.InRange) (same : stackTable first = stackTable second) :
    first.stack = second.stack := by
  have lengths : (stackEntries first).length = (stackEntries second).length := by
    rw [length_stackEntries firstRange.depth, length_stackEntries secondRange.depth]
  have entries := eq_of_numberLines_eq lengths (eq_of_titled_eq same)
  exact stack_eq_of_stackEntries_eq firstRange secondRange entries

private theorem registers_eq_of_registerTable_eq
    (same : registerTable first = registerTable second) : first.registers = second.registers := by
  have lengths : (first.registers.toList.map UInt8.toNat).length =
      (second.registers.toList.map UInt8.toNat).length := by
    simp only [List.length_map, Vector.length_toList]
  have values := eq_of_numberLines_eq lengths (eq_of_titled_eq same)
  exact Vector.toList_inj.mp ((List.map_inj_right fun _ _ => UInt8.toNat_inj.mp).mp values)

private theorem screen_eq_of_screenTable_eq (same : screenTable first = screenTable second) :
    first.screen = second.screen := by
  have rows : first.screen.rows.toList = second.screen.rows.toList := by
    apply (List.map_inj_right _).mp (eq_of_titled_eq same)
    intro row other shown
    exact Vector.toList_inj.mp (eq_of_pixels_eq shown)
  exact congrArg Screen.mk (Vector.toList_inj.mp rows)

private theorem eq_of_tables_eq (firstRange : first.InRange) (secondRange : second.InRange)
    (same : tables first = tables second) :
    first.keypad = second.keypad ∧ first.stack = second.stack ∧
      first.registers = second.registers ∧ first.screen = second.screen := by
  obtain ⟨keypad, same⟩ := List.append_inj same
    (by rw [length_keypadTable, length_keypadTable])
  obtain ⟨stack, same⟩ := List.append_inj same
    (by rw [length_stackTable firstRange.depth, length_stackTable secondRange.depth])
  obtain ⟨registers, same⟩ := List.append_inj same
    (by rw [length_registerTable, length_registerTable])
  have screen := List.append_cancel_right same
  exact ⟨keypad_eq_of_keypadTable_eq keypad,
    stack_eq_of_stackTable_eq firstRange secondRange stack,
    registers_eq_of_registerTable_eq registers, screen_eq_of_screenTable_eq screen⟩

/-- The title of the memory is indented less than the lines under it, so it is none of them. -/
theorem memoryTitle_not_mem_map (body : List (List Char)) :
    '\t' :: "Memory".toList ++ " :".toList ∉ body.map fun line => '\t' :: '\t' :: line := by
  intro mem
  obtain ⟨line, -, same⟩ := List.mem_map.mp mem
  simp at same

/-- The memory can be read from its table, and whatever is in front of the table is told apart from
it. -/
theorem eq_of_append_memoryTable_eq {firstLines secondLines : List (List Char)}
    (same : firstLines ++ memoryTable first = secondLines ++ memoryTable second) :
    firstLines = secondLines ∧ first.memory = second.memory := by
  obtain ⟨front, body⟩ := eq_of_append_cons_eq (memoryTitle_not_mem_map _)
    (memoryTitle_not_mem_map _) same
  have rows : memoryTable first = memoryTable second := by
    rw [memoryTable, titled, body]
    rfl
  have full : ∀ memory : Memory, lineBytes ∣ memory.toList.length := by
    intro memory
    rw [Memory.toList, Vector.length_toList]
    decide
  have bytes := eq_of_memoryLines_eq (full first.memory) (full second.memory) (eq_of_titled_eq rows)
  exact ⟨front, congrArg Memory.mk (Vector.toList_inj.mp bytes)⟩

end Sections

private theorem name_eq_of_splitOn_eq {first second : Console}
    (same : (nameLine first).splitOn '\n' = (nameLine second).splitOn '\n') :
    first.name = second.name := by
  have line := congrArg ['\n'].intercalate same
  rw [List.intercalate_splitOn, List.intercalate_splitOn] at line
  exact String.toList_inj.mp (List.tail_eq_of_cons_eq (List.tail_eq_of_cons_eq line))

end Dump

namespace Console

/-- A dump is read from its end: the tables behind the memory, the memory, the numbers, the name. -/
theorem showsSame_of_dump_eq {first second : Console} (firstRange : first.machine.InRange)
    (secondRange : second.machine.InRange) (same : first.dump = second.dump) :
    first.ShowsSame second := by
  have lines := congrArg (List.splitOn '\n') (String.ofList_injective same)
  rw [Dump.splitOn_characters, Dump.splitOn_characters] at lines
  have behindHeading := List.append_cancel_left lines
  simp only [← List.append_assoc] at behindHeading
  obtain ⟨front, tables⟩ := List.append_inj' behindHeading
    (by rw [Dump.length_tables firstRange.depth, Dump.length_tables secondRange.depth])
  obtain ⟨front, memory⟩ := Dump.eq_of_append_memoryTable_eq front
  obtain ⟨name, numbers⟩ := List.append_inj' front rfl
  obtain ⟨keypad, stack, registers, screen⟩ := Dump.eq_of_tables_eq firstRange secondRange tables
  obtain ⟨counter, index, delay, sound⟩ := Dump.eq_of_numbers_eq numbers
  exact { name := Dump.name_eq_of_splitOn_eq name, counter, index, delay, sound, memory, keypad,
          stack, registers, screen }

/-- Nothing else goes into a dump. -/
theorem ShowsSame.dump_eq {first second : Console} (same : first.ShowsSame second) :
    first.dump = second.dump := by
  have entries : Dump.stackEntries first.machine = Dump.stackEntries second.machine := by
    rw [Dump.stackEntries, Machine.stackFromBottom, same.stack]
    rfl
  rw [dump, dump, Dump.characters, Dump.characters, Dump.lines, Dump.lines, same.name, same.counter,
    same.index, same.delay, same.sound, same.memory, same.keypad, entries, same.registers,
    same.screen]

/-- Two consoles after any sessions have the same dump exactly if they agree on the name, the
counter, the index, the timers, the memory, the keypad, the stack, the registers and the screen. -/
theorem dump_eq_iff (firstRom secondRom : Rom) (firstDialect secondDialect : Dialect)
    (firstRandom secondRandom : Random) (firstSession secondSession : List Action) :
    ((insert firstRom firstDialect firstRandom).after firstSession).dump =
        ((insert secondRom secondDialect secondRandom).after secondSession).dump ↔
      ((insert firstRom firstDialect firstRandom).after firstSession).ShowsSame
        ((insert secondRom secondDialect secondRandom).after secondSession) := by
  constructor
  · apply showsSame_of_dump_eq
    · exact Machine.inRange_after firstDialect firstRandom firstRom.program firstSession
    · exact Machine.inRange_after secondDialect secondRandom secondRom.program secondSession
  · intro same
    exact same.dump_eq

end Console

end Chip8
