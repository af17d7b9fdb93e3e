import Chip8.Proofs.Perform
import Chip8.Proofs.Reachable
import Chip8.Proofs.Sprite

/-! # Cycles that check themselves

Some operations of a machine are total where they could refuse: a block that reaches past an end is
cut, a pixel outside of the screen is passed over, a sum wraps around, a conversion drops bits.
`Machine.checkedCycle` is the cycle with operations that do refuse, and
`Machine.cycle_unrefused_after` says that after any session none of them ever does. Single registers
need no check: their numbers are below sixteen by their type.
-/

namespace Chip8

/-- A number as a byte, if no bit is lost. -/
def byte? (value : Nat) : Option UInt8 := if value < 256 then some (UInt8.ofNat value) else none

/-- A number as an address, if no bit is lost. -/
def address? (value : Nat) : Option UInt16 :=
  if value < 65536 then some (UInt16.ofNat value) else none

/-- The `count` entries from `start` on, if there are as many. -/
def slice? {α : Type} {n : Nat} (entries : Vector α n) (start : Nat) :
    (count : Nat) → Option (List α)
  | 0 => some []
  | count + 1 => do
    let entry ← entries[start]?
    let later ← slice? entries (start + 1) count
    return entry :: later

/-- The entries with the listed values from `start` on, if each of them has a place. -/
def place? {α : Type} {n : Nat} (entries : Vector α n) (start : Nat) :
    List α → Option (Vector α n)
  | [] => some entries
  | value :: values =>
    if inside : start < n then place? (entries.set start value) (start + 1) values else none

namespace Screen

/-- Inverts pixels of one row that are all on the screen. -/
def flipRow? (screen : Screen) (row : Nat) : List Nat → Option (Bool × Screen)
  | [] => some (false, screen)
  | column :: columns => do
    let before ← (screen.flip row column).1
    let (later, final) ← (screen.flip row column).2.flipRow? row columns
    return (before || later, final)

/-- Draws a sprite as far as it is on the screen. -/
def drawSprite? (screen : Screen) (memory : Memory) (row column address : Nat) :
    (height : Nat) → Option (Except Fault Bool × Screen)
  | 0 => some (.ok false, screen)
  | height + 1 =>
    if row < Screen.height then
      match memory.read address with
      | .error fault => some (.error fault, screen)
      | .ok byte => do
        let visible := (spriteColumns byte column).filter (· < Screen.width)
        let (hit, drawn) ← screen.flipRow? row visible
        let (below, final) ← drawn.drawSprite? memory (row + 1) column (address + 1) height
        return (below.map (hit || ·), final)
    else some (.ok false, screen)

end Screen

namespace Machine

/-- Moves the counter by one instruction, if it does not wrap around. -/
def advance? (machine : Machine) : Option Machine :=
  (address? (machine.counter.toNat + Word.size)).map machine.setCounter

/-- Skips the next instruction under a condition. -/
def skipWhen? (machine : Machine) (condition : Bool) : Option Outcome :=
  if condition then machine.advance?.map .done else some (.done machine)

/-- Skips the next instruction if the key `VX` is down, or up, as wanted. -/
def testKey? (machine : Machine) (x : Register) (wanted : Bool) : Option Outcome :=
  let value := machine.register x
  match machine.keypad.isPressed? value.toNat with
  | some down => machine.skipWhen? (down == wanted)
  | none =>
    (machine.skipWhen? (!wanted)).map fun outcome =>
      { outcome with events := [.noSuchKey x value] }

/-- Draws the sprite at `I`. -/
def drawSprite? (machine : Machine) (x y : Register) (height : Nat) : Option Outcome := do
  let row := (machine.register y).toNat % Screen.height
  let column := (machine.register x).toNat % Screen.width
  let (drawn, screen) ←
    machine.screen.drawSprite? machine.memory row column machine.index.toNat height
  match drawn with
  | .ok hit => return .signalled .draw ({ machine with screen := screen }.setFlag hit)
  | .error fault => return .failed fault ({ machine with screen := screen }.setFlag false)

/-- Writes a block at `I`. A block that does not fit is a fault, and no byte of it is written. -/
def storeBlock? (machine : Machine) (block : List UInt8) (advance : Machine → Machine) :
    Option Outcome :=
  if machine.index.toNat + block.length ≤ Memory.size then do
    let bytes ← place? machine.memory.bytes machine.index.toNat block
    return .done (advance { machine with memory := ⟨bytes⟩ })
  else some (.failed (.outOfMemory (max machine.index.toNat Memory.size) Memory.size) machine)

/-- Fills `V0` to `VX` from memory at `I`. If a byte is missing this is a fault, and no register is
written. -/
def fillRegisters? (machine : Machine) (x : Register) : Option Outcome :=
  if machine.index.toNat + (x.val + 1) ≤ Memory.size then do
    let block ← slice? machine.memory.bytes machine.index.toNat (x.val + 1)
    let registers ← place? machine.registers 0 block
    return .done ({ machine with registers := registers }.advanceIndex (x.val + 1))
  else some (.failed (.outOfMemory (max machine.index.toNat Memory.size) Memory.size) machine)

/-- Carries out an instruction. -/
def checkedPerform (machine : Machine) : Instruction → Option Outcome
  | .skipEqual x value => machine.skipWhen? (machine.register x == value)
  | .skipNotEqual x value => machine.skipWhen? (machine.register x != value)
  | .skipSame x y => machine.skipWhen? (machine.register x == machine.register y)
  | .skipDifferent x y => machine.skipWhen? (machine.register x != machine.register y)
  | .skipPressed x => machine.testKey? x true
  | .skipReleased x => machine.testKey? x false
  | .jumpOffset x target => do
    let offset := machine.register (if machine.dialect.offsetByX then x else nibble 0)
    let sum ← address? (target.toNat + offset.toNat)
    return .done (machine.setCounter sum)
  | .draw x y height => machine.drawSprite? x y height.val
  | .readDelay x => do
    let value ← byte? machine.delay.value
    return .done (machine.setRegister x value)
  | .glyph x => do
    let address ← address? (Font.address + Font.glyphSize * (machine.register x).toNat)
    return .done (machine.setIndex address)
  | .decimal x => machine.storeBlock? (decimalDigits (machine.register x)) id
  | .store x => do
    let block ← slice? machine.registers 0 (x.val + 1)
    machine.storeBlock? block (·.advanceIndex (x.val + 1))
  | .fill x => machine.fillRegisters? x
  | instruction => some (machine.perform instruction)

/-- Runs one cycle. -/
def checkedCycle (machine : Machine) : Option Outcome :=
  match machine.awaiting with
  | some x => some (machine.poll x)
  | none =>
    match machine.fetch with
    | .error fault => some (.failed fault machine)
    | .ok word => do
      let advanced ← machine.advance?
      match Instruction.decode word with
      | .error error => return { Outcome.done advanced with events := [.skipped error] }
      | .ok instruction =>
        let outcome ← advanced.checkedPerform instruction
        return { outcome with events := .executing word instruction :: outcome.events }

end Machine

private theorem byte?_of_le {value : Nat} (bound : value ≤ 255) :
    byte? value = some (UInt8.ofNat value) :=
  if_pos (Nat.lt_succ_of_le bound)

private theorem address?_of_lt {value : Nat} (bound : value < 65536) :
    address? value = some (UInt16.ofNat value) := if_pos bound

/-- A sum that fits is the sum of the two addresses. -/
theorem address?_add {first second : UInt16} (bound : first.toNat + second.toNat < 65536) :
    address? (first.toNat + second.toNat) = some (first + second) := by
  rw [address?_of_lt bound, UInt16.ofNat_add, UInt16.ofNat_toNat, UInt16.ofNat_toNat]

/-- An address of the language and a byte always have a sum. -/
theorem address?_offset {target : UInt16} (low : target.toNat < 4096) (offset : UInt8) :
    address? (target.toNat + offset.toNat) = some (target + offset.toUInt16) := by
  have small := offset.toNat_lt
  have bound : target.toNat + offset.toUInt16.toNat < 65536 := by
    rw [UInt8.toNat_toUInt16]
    omega
  rw [← address?_add bound, UInt8.toNat_toUInt16]

private theorem slice?_eq {α : Type} {n : Nat} (entries : Vector α n) {start count : Nat}
    (inside : start + count ≤ n) :
    slice? entries start count = some ((entries.toList.drop start).take count) := by
  induction count generalizing start with
  | zero => simp [slice?]
  | succ count ih =>
    have here : start < n := by omega
    have listed : start < entries.toList.length := by
      rw [Vector.length_toList]
      exact here
    rw [slice?, ih (by omega), List.drop_eq_getElem_cons listed, List.take_succ_cons]
    simp [here]

private theorem place?_eq {α : Type} {n : Nat} (entries : Vector α n) {start : Nat}
    {values : List α} (inside : start + values.length ≤ n) :
    place? entries start values = some (overwrite entries start values) := by
  induction values generalizing entries start with
  | nil => rfl
  | cons value values ih =>
    rw [List.length_cons] at inside
    have here : start < n := by omega
    have placed : entries.setIfInBounds start value = entries.set start value := by
      ext i inside
      rw [Vector.getElem_setIfInBounds, Vector.getElem_set]
    rw [place?, dif_pos here, ih _ (by omega), overwrite, placed]

namespace Screen

private theorem flip_fst_of_lt {screen : Screen} {row column : Nat} (visible : row < 32)
    (inside : column < 64) : (screen.flip row column).1 = some (screen.isLit row column) := by
  rw [flip_fst, if_pos ⟨visible, inside⟩]

/-- Columns beyond the edge are passed over by a drawing that does not look at them either. -/
theorem flipRow?_filter (screen : Screen) {row : Nat} (visible : row < 32) (columns : List Nat) :
    screen.flipRow? row (columns.filter (· < Screen.width)) =
      some (screen.flipRow row columns) := by
  induction columns generalizing screen with
  | nil => rfl
  | cons column columns ih =>
    by_cases inside : column < 64
    · have kept : (column :: columns).filter (· < Screen.width) =
          column :: columns.filter (· < Screen.width) :=
        List.filter_cons_of_pos (decide_eq_true inside)
      rw [kept, flipRow?, flipRow, flip_fst_of_lt visible inside, ih]
      cases lit : screen.isLit row column <;> simp [flip_fst_of_lt visible inside, lit]
    · have dropped : (column :: columns).filter (· < Screen.width) =
          columns.filter (· < Screen.width) :=
        List.filter_cons_of_neg fun visible => inside (of_decide_eq_true visible)
      rw [dropped, ih, flipRow, screen.flip_of_outside (by omega)]
      simp

private theorem drawSprite?_eq (screen : Screen) (memory : Memory)
    (row column address height : Nat) :
    screen.drawSprite? memory row column address height =
      some (screen.drawSprite memory row column address height) := by
  induction height generalizing screen row address with
  | zero => rfl
  | succ height ih =>
    unfold drawSprite? drawSprite
    split
    next visible =>
      cases memory.read address with
      | error fault => rfl
      | ok byte =>
        dsimp only
        rw [flipRow?_filter screen visible]
        dsimp only [Option.bind_eq_bind, Option.bind_some]
        rw [ih]
        rfl
    next below => rfl

end Screen

namespace Machine

variable {machine : Machine} {instruction : Instruction} {word : Word}

private theorem advance?_eq (behind : machine.counter.toNat ≤ 4096) :
    machine.advance? = some machine.advanceCounter := by
  have bound : machine.counter.toNat + (2 : UInt16).toNat < 65536 := by
    change machine.counter.toNat + 2 < 65536
    omega
  have moved : address? (machine.counter.toNat + Word.size) = some (machine.counter + 2) :=
    address?_add bound
  rw [advance?, moved]
  rfl

private theorem skipWhen?_eq (behind : machine.counter.toNat ≤ 4096) (condition : Bool) :
    machine.skipWhen? condition = some (.done (machine.follow (.skipWhen condition))) := by
  cases condition with
  | true =>
    rw [skipWhen?, if_pos rfl, advance?_eq behind]
    rfl
  | false => rfl

private theorem testKey?_eq (behind : machine.counter.toNat ≤ 4096) (x : Register) (wanted : Bool) :
    machine.testKey? x wanted = some (machine.testKey x wanted) := by
  unfold testKey? testKey
  dsimp only
  cases machine.keypad.isPressed? (machine.register x).toNat with
  | some down => exact skipWhen?_eq behind (down == wanted)
  | none =>
    dsimp only
    rw [skipWhen?_eq behind]
    rfl

private theorem drawSprite?_eq (machine : Machine) (x y : Register) (height : Nat) :
    machine.drawSprite? x y height = some (machine.drawSprite x y height) := by
  unfold drawSprite? drawSprite
  dsimp only
  rw [Screen.drawSprite?_eq]
  dsimp only [Option.bind_eq_bind, Option.bind_some]
  generalize machine.screen.drawSprite _ _ _ _ _ = drawn
  obtain ⟨hit | fault, screen⟩ := drawn <;> rfl

private theorem storeBlock?_eq (machine : Machine) (block : List UInt8)
    (advance : Machine → Machine) :
    machine.storeBlock? block advance = some (machine.storeBlock block advance) := by
  unfold storeBlock? storeBlock
  by_cases fits : machine.index.toNat + block.length ≤ Memory.size
  · rw [if_pos fits, machine.memory.putBlock_of_fits fits, place?_eq machine.memory.bytes fits]
    rfl
  · rw [if_neg fits, machine.memory.putBlock_of_beyond (Nat.lt_of_not_le fits)]

private theorem fillRegisters?_eq (machine : Machine) (x : Register) :
    machine.fillRegisters? x = some (machine.fillRegisters x) := by
  unfold fillRegisters? fillRegisters Memory.readBlock
  by_cases fits : machine.index.toNat + (x.val + 1) ≤ Memory.size
  · have block : (machine.memory.bytes.toArray.extract machine.index.toNat
          (machine.index.toNat + (x.val + 1))).toList =
        (machine.memory.bytes.toList.drop machine.index.toNat).take (x.val + 1) := by
      rw [Array.toList_extract, List.extract_eq_take_drop, Nat.add_sub_cancel_left]
      rfl
    have size : ((machine.memory.bytes.toList.drop machine.index.toNat).take (x.val + 1)).length =
        x.val + 1 := by
      rw [List.length_take, List.length_drop, Vector.length_toList]
      change machine.index.toNat + (x.val + 1) ≤ 4096 at fits
      omega
    rw [if_pos fits, if_pos fits, slice?_eq machine.memory.bytes fits, block]
    dsimp only [Option.bind_eq_bind, Option.bind_some]
    rw [place?_eq machine.registers (by omega)]
    rfl
  · rw [if_neg fits, if_neg fits]

/-- In range, an instruction that was fetched is carried out without a refusal. -/
theorem checkedPerform_eq (inRange : machine.InRange) (behind : machine.IsBehindFetch)
    (encodes : word.Encodes instruction) :
    machine.checkedPerform instruction = some (machine.perform instruction) := by
  have below := behind.2
  cases instruction with
  | skipEqual | skipNotEqual | skipSame | skipDifferent => exact skipWhen?_eq below _
  | skipPressed x => exact testKey?_eq below x true
  | skipReleased x => exact testKey?_eq below x false
  | jumpOffset x target =>
    obtain ⟨-, -, rfl⟩ := encodes
    have low := word.nnn_lt
    have sum := address?_offset low
      (machine.register (if machine.dialect.offsetByX then x else nibble 0))
    rw [checkedPerform, sum]
    rfl
  | draw x y height => exact machine.drawSprite?_eq x y height.val
  | readDelay x =>
    rw [checkedPerform, byte?_of_le inRange.delay]
    rfl
  | glyph x =>
    have value := machine.toNat_register_le x
    have bound : Font.address + Font.glyphSize * (machine.register x).toNat < 65536 := by
      change 0 + 5 * (machine.register x).toNat < 65536
      omega
    rw [checkedPerform, address?_of_lt bound]
    rfl
  | decimal x => exact machine.storeBlock?_eq _ id
  | store x =>
    have inside : 0 + (x.val + 1) ≤ 16 := by omega
    rw [checkedPerform, slice?_eq machine.registers inside, List.drop_zero]
    dsimp only [Option.bind_eq_bind, Option.bind_some]
    exact machine.storeBlock?_eq _ _
  | fill x => exact machine.fillRegisters?_eq x
  | _ => rfl

/-- In range, a cycle is run without a refusal. -/
theorem checkedCycle_eq (inRange : machine.InRange) :
    machine.checkedCycle = some machine.cycle := by
  unfold checkedCycle cycle
  cases machine.awaiting with
  | some x => rfl
  | none =>
    dsimp only
    cases fetched : machine.fetch with
    | error fault => rfl
    | ok word =>
      have points := (fetch_eq_ok_iff.mp fetched).1
      have behind := isBehindFetch_advanceCounter points
      have advanced : machine.advanceCounter.InRange := inRange.of_same rfl rfl rfl
      have below : machine.counter.toNat ≤ 4096 := by
        obtain ⟨inside, -⟩ := points
        omega
      dsimp only
      rw [advance?_eq below]
      dsimp only [Option.bind_eq_bind, Option.bind_some]
      unfold execute Instruction.decode
      cases decoded : Instruction.ofWord? word with
      | none => rfl
      | some instruction =>
        have encodes := (Instruction.ofWord?_eq_some_iff word instruction).mp decoded
        dsimp only
        rw [checkedPerform_eq advanced behind encodes]
        rfl

/-- Whatever is done with a machine that has been booted, and whether it succeeds or fails, the
machine stays in range: the stack holds at most sixteen addresses, each of them behind an
instruction in memory, an awaited register is one of the sixteen, the timers count down from bytes,
and screen and memory keep their sizes. From every such machine the next cycle stays in range as
well: no index leaves its range, no address wraps around and no conversion loses a bit. -/
theorem cycle_unrefused_after (dialect : Dialect) (random : Random) (program : List UInt8)
    (session : List Action) :
    let machine := (boot dialect random program).after session
    machine.InRange ∧
      (∀ x, machine.awaiting = some x → x.val < registerCount) ∧
      machine.screen.rows.toList.map (·.toList.length) = List.replicate 32 64 ∧
      machine.memory.toList.length = 4096 ∧
      machine.checkedCycle = some machine.cycle := by
  intro machine
  have inRange := inRange_after dialect random program session
  refine ⟨inRange, fun x _ => x.isLt, ?_, Vector.length_toList, checkedCycle_eq inRange⟩
  apply List.eq_replicate_iff.mpr
  constructor
  · rw [List.length_map, Vector.length_toList]
  · intro size present
    obtain ⟨row, -, rfl⟩ := List.mem_map.mp present
    exact Vector.length_toList

end Machine

end Chip8
