import Chip8.Proofs.Cycle
import Chip8.Proofs.Footprint
import Chip8.Proofs.Run

/-! # Two dialects side by side

`Machine.tellsApart` lists the instructions that read a dialect, each with the condition under which
the answer makes a difference. `Machine.dialects_in_lockstep` says that the list is complete: as
long as no cycle of a session carries out such an instruction, nothing that a machine does depends
on which of two dialects it has.
-/

namespace Chip8

/-- The same machine with the answers of another dialect. -/
def Machine.speaking (machine : Machine) (other : Dialect) : Machine :=
  { machine with dialect := other }

/-- The same outcome for the machine with the answers of another dialect. -/
def Outcome.speaking (outcome : Outcome) (other : Dialect) : Outcome :=
  { outcome with machine := outcome.machine.speaking other }

/-- The same reaction of the machine with the answers of another dialect. -/
def Reaction.speaking (reaction : Reaction) (other : Dialect) : Reaction :=
  { reaction with machine := reaction.machine.speaking other }

/-- The same run of the machine with the answers of another dialect. -/
def Run.speaking (run : Run) (other : Dialect) : Run :=
  { run with machine := run.machine.speaking other }

namespace Machine

variable {machine : Machine} {other : Dialect} {instruction : Instruction}

/-- Whether the effect of an instruction depends on which of two dialects the machine has: its own
or the other one. -/
def tellsApart (machine : Machine) (other : Dialect) (instruction : Instruction) : Bool :=
  match instruction with
  | .arithmetic .shiftRight x y | .arithmetic .shiftLeft x y =>
    machine.register x != machine.register y &&
      machine.dialect.shiftInPlace != other.shiftInPlace
  | .store _ | .fill _ =>
    (machine.perform instruction).result.isOk &&
      machine.dialect.advanceIndex != other.advanceIndex
  | .jumpOffset x _ =>
    machine.register x != machine.register (nibble 0) &&
      machine.dialect.offsetByX != other.offsetByX
  | _ => false

/-- Whether the next cycle carries out an instruction that tells two dialects apart. -/
def separates (machine : Machine) (other : Dialect) : Bool :=
  machine.upcoming?.any (machine.advanceCounter.tellsApart other)

section Speaking

variable (machine : Machine) (other : Dialect)

@[simp] theorem dialect_speaking : (machine.speaking other).dialect = other := rfl

@[simp] theorem register_speaking (x : Register) :
    (machine.speaking other).register x = machine.register x := rfl

@[simp] theorem index_speaking : (machine.speaking other).index = machine.index := rfl

@[simp] theorem stack_speaking : (machine.speaking other).stack = machine.stack := rfl

@[simp] theorem keypad_speaking : (machine.speaking other).keypad = machine.keypad := rfl

@[simp] theorem awaiting_speaking : (machine.speaking other).awaiting = machine.awaiting := rfl

@[simp] theorem memory_speaking : (machine.speaking other).memory = machine.memory := rfl

@[simp] theorem fetch_speaking : (machine.speaking other).fetch = machine.fetch := rfl

end Speaking

private theorem eq_of_and_ne_eq_false {condition first second : Bool}
    (alike : (condition && first != second) = false) (holds : condition = true) :
    first = second := by
  rw [holds, Bool.true_and] at alike
  exact bne_eq_false_iff_eq.mp alike

/-- Two operands that are equal, or two dialects that agree, have the shifts start from the same
value. The other operations do not look at it. -/
theorem compute_speaking {operation : Arithmetic} {x y : Register}
    (alike : machine.tellsApart other (.arithmetic operation x y) = false) :
    operation.compute (machine.register x) (machine.register y)
        (if other.shiftInPlace then machine.register x else machine.register y) =
      operation.compute (machine.register x) (machine.register y)
        (if machine.dialect.shiftInPlace then machine.register x else machine.register y) := by
  cases operation with
  | shiftRight | shiftLeft =>
    by_cases same : machine.register x = machine.register y
    · rw [same, ite_self, ite_self]
    · have agree : machine.dialect.shiftInPlace = other.shiftInPlace :=
        eq_of_and_ne_eq_false alike (bne_iff_ne.mpr same)
      rw [agree]
  | _ => rfl

private theorem performArithmetic_speaking {operation : Arithmetic} {x y : Register}
    (alike : machine.tellsApart other (.arithmetic operation x y) = false) :
    (machine.speaking other).performArithmetic operation x y =
      (machine.performArithmetic operation x y).speaking other := by
  unfold performArithmetic
  dsimp only
  rw [register_speaking, register_speaking, dialect_speaking, compute_speaking alike]
  generalize operation.compute (machine.register x) (machine.register y) _ = computed
  obtain ⟨result, _ | flag⟩ := computed <;> rfl

private theorem jumpOffset_speaking {x : Register} {target : UInt16}
    (alike : machine.tellsApart other (.jumpOffset x target) = false) :
    machine.register (if other.offsetByX then x else nibble 0) =
      machine.register (if machine.dialect.offsetByX then x else nibble 0) := by
  by_cases same : machine.register x = machine.register (nibble 0)
  · rw [apply_ite machine.register, apply_ite machine.register, same, ite_self, ite_self]
  · have agree : machine.dialect.offsetByX = other.offsetByX :=
      eq_of_and_ne_eq_false alike (bne_iff_ne.mpr same)
    rw [agree]

private theorem testKey_speaking (machine : Machine) (other : Dialect) (x : Register)
    (wanted : Bool) :
    (machine.speaking other).testKey x wanted = (machine.testKey x wanted).speaking other := by
  unfold testKey
  dsimp only
  rw [keypad_speaking, register_speaking]
  cases machine.keypad.isPressed? (machine.register x).toNat <;> rfl

private theorem advanceIndex_speaking (machine : Machine)
    (agree : machine.dialect.advanceIndex = other.advanceIndex)
    (count : Nat) :
    (machine.speaking other).advanceIndex count = (machine.advanceIndex count).speaking other := by
  unfold advanceIndex
  rw [dialect_speaking, ← agree]
  split <;> rfl

/-- A block that is stored, and a machine that goes on from there in the same way. -/
theorem storeBlock_speaking {block : List UInt8} {advance : Machine → Machine}
    (alike : (machine.storeBlock block advance).result.isOk → ∀ memory,
      advance ({ machine with memory := memory }.speaking other) =
        (advance { machine with memory := memory }).speaking other) :
    (machine.speaking other).storeBlock block advance =
      (machine.storeBlock block advance).speaking other := by
  unfold storeBlock at alike ⊢
  rw [memory_speaking, index_speaking]
  generalize machine.memory.putBlock machine.index.toNat block = attempt at alike ⊢
  obtain ⟨fault | _, memory⟩ := attempt
  · rfl
  · have moved := alike rfl memory
    exact congrArg Outcome.done moved

private theorem fillRegisters_speaking {x : Register}
    (alike : (machine.fillRegisters x).result.isOk →
      machine.dialect.advanceIndex = other.advanceIndex) :
    (machine.speaking other).fillRegisters x = (machine.fillRegisters x).speaking other := by
  unfold fillRegisters at alike ⊢
  rw [memory_speaking, index_speaking]
  cases read : machine.memory.readBlock machine.index.toNat (x.val + 1) with
  | error fault => rfl
  | ok block =>
    rw [read] at alike
    have moved := advanceIndex_speaking
      { machine with registers := overwrite machine.registers 0 block } (alike rfl) (x.val + 1)
    exact congrArg Outcome.done moved

private theorem perform_speaking (alike : machine.tellsApart other instruction = false) :
    (machine.speaking other).perform instruction =
      (machine.perform instruction).speaking other := by
  cases instruction with
  | ret =>
    rw [perform, perform, ret, ret, stack_speaking]
    cases machine.stack <;> rfl
  | call target =>
    rw [perform, perform, call, call, stack_speaking]
    split <;> rfl
  | arithmetic operation x y =>
    exact congrArg Outcome.done (performArithmetic_speaking alike)
  | jumpOffset x target =>
    have offset := jumpOffset_speaking alike
    rw [perform, perform, ← offset]
    rfl
  | draw x y height =>
    rw [perform, perform, drawSprite_eq, drawSprite_eq]
    rfl
  | skipPressed x => exact testKey_speaking machine other x true
  | skipReleased x => exact testKey_speaking machine other x false
  | awaitKey x =>
    rw [perform, perform, awaitKey, awaitKey, keypad_speaking]
    cases machine.keypad.firstPressed? <;> rfl
  | decimal x => exact storeBlock_speaking fun _ _ => rfl
  | store x =>
    rw [perform, perform]
    apply storeBlock_speaking
    intro succeeds memory
    have agree : machine.dialect.advanceIndex = other.advanceIndex :=
      eq_of_and_ne_eq_false alike succeeds
    exact advanceIndex_speaking { machine with memory := memory } agree (x.val + 1)
  | fill x =>
    apply fillRegisters_speaking
    intro succeeds
    exact eq_of_and_ne_eq_false alike succeeds
  | _ => rfl

private theorem poll_speaking (machine : Machine) (other : Dialect) (x : Register) :
    (machine.speaking other).poll x = (machine.poll x).speaking other := by
  rw [poll, poll, keypad_speaking]
  cases machine.keypad.firstPressed? <;> rfl

private theorem cycle_speaking (alike : machine.separates other = false) :
    (machine.speaking other).cycle = machine.cycle.speaking other := by
  unfold cycle
  rw [awaiting_speaking, fetch_speaking]
  cases waiting : machine.awaiting with
  | some x => exact machine.poll_speaking other x
  | none =>
    cases fetched : machine.fetch with
    | error fault => rfl
    | ok word =>
      have next := upcoming?_of_fetch waiting fetched
      dsimp only
      unfold execute Instruction.decode
      cases decoded : Instruction.ofWord? word with
      | none => rfl
      | some instruction =>
        rw [separates, next, decoded] at alike
        have performed := perform_speaking alike
        exact congrArg (fun outcome : Outcome =>
          { outcome with events := .executing word instruction :: outcome.events }) performed

end Machine

private theorem Run.advance_speaking {run : Run} {other : Dialect}
    (alike : run.machine.separates other = false) :
    (run.speaking other).advance = run.advance.speaking other := by
  have cycled : (run.speaking other).machine.cycle = run.machine.cycle.speaking other :=
    Machine.cycle_speaking alike
  unfold advance
  rw [cycled]
  dsimp only [Outcome.speaking]
  cases run.machine.cycle.result <;> rfl

private theorem Run.proceed_speaking {run : Run} {other : Dialect} {count : Nat}
    (alike : ∀ visited ∈ run.visits count, visited.separates other = false) :
    (run.speaking other).proceed count = (run.proceed count).speaking other := by
  induction count generalizing run with
  | zero => rfl
  | succ count ih =>
    have fault : (run.speaking other).fault = run.fault := rfl
    unfold visits at alike
    unfold proceed
    rw [fault]
    cases failed : run.fault with
    | some fault => rfl
    | none =>
      rw [failed] at alike
      obtain ⟨first, rest⟩ := List.forall_mem_cons.mp alike
      dsimp only
      rw [advance_speaking first]
      exact ih rest

namespace Machine

variable {machine : Machine} {other : Dialect} {action : Action} {session : List Action}

private theorem frame_speaking {keys : List Bool} {cycles : Nat}
    (alike : ∀ visited ∈ machine.cycleStarts (.frame keys cycles),
      visited.separates other = false) :
    (machine.speaking other).frame keys cycles = (machine.frame keys cycles).speaking other := by
  have ran : ((machine.speaking other).setKeys keys).run cycles =
      ((machine.setKeys keys).run cycles).speaking other := Run.proceed_speaking alike
  unfold frame
  rw [ran]
  dsimp only [Run.speaking]
  cases ((machine.setKeys keys).run cycles).fault <;> rfl

/-- An action that carries out no instruction that tells the dialects apart is the same action
under both. -/
theorem act_speaking
    (alike : ∀ visited ∈ machine.cycleStarts action, visited.separates other = false) :
    (machine.speaking other).act action = (machine.act action).speaking other := by
  cases action with
  | cycle =>
    have first := alike machine (List.mem_singleton_self machine)
    exact congrArg Outcome.unseen (cycle_speaking first)
  | frame keys cycles => exact frame_speaking alike
  | poke address block =>
    rw [act, act, poke_eq, poke_eq, memory_speaking]
    rfl
  | _ => rfl

/-- No cycle of a session carries out an instruction that tells the dialect of the machine from the
other one. -/
def NeverSeparates (machine : Machine) (other : Dialect) (session : List Action) : Prop :=
  machine.Throughout
    (fun met action => ∀ visited ∈ met.cycleStarts action, visited.separates other = false) session

instance (machine : Machine) (other : Dialect) (session : List Action) :
    Decidable (machine.NeverSeparates other session) :=
  inferInstanceAs (Decidable (machine.Throughout _ session))

private theorem after_speaking (undivided : machine.NeverSeparates other session) :
    (machine.speaking other).after session = (machine.after session).speaking other := by
  induction session generalizing machine with
  | nil => rfl
  | cons action session ih =>
    obtain ⟨first, rest⟩ := throughout_cons_iff.mp undivided
    rw [after_cons, after_cons, act_speaking first]
    exact ih rest

/-- A machine keeps its dialect. -/
theorem dialect_after (machine : Machine) (session : List Action) :
    (machine.after session).dialect = machine.dialect := by
  have cycle (met : Machine) (same : met.dialect = machine.dialect) :
      met.cycle.machine.dialect = machine.dialect := met.cycle_sameExcept.dialect.trans same
  have between (met : Machine) (action : Action) (between : action.runsCycles = false)
      (same : met.dialect = machine.dialect) :
      (met.act action).machine.dialect = machine.dialect :=
    (met.act_between_cycles between).dialect.trans same
  exact after_preserves cycle between rfl session

/-- Two machines that differ in nothing but their dialects, under the same session. As long as no
cycle of the first one carries out an instruction that tells the dialects apart, they go on to
differ in nothing else: every action returns and logs the same and has the same shown on a display,
and the machines after it are equal but for the dialects, which stay what they are. -/
theorem dialects_in_lockstep (machine : Machine) (other : Dialect) (session : List Action)
    (undivided : machine.NeverSeparates other session) :
    ∀ earlier later, session = earlier ++ later →
      { machine with dialect := other }.after earlier =
          { machine.after earlier with dialect := other } ∧
        (machine.after earlier).dialect = machine.dialect ∧
        ∀ action, later.head? = some action →
          let first := (machine.after earlier).act action
          let second := ({ machine with dialect := other }.after earlier).act action
          second.result = first.result ∧ second.presentation = first.presentation ∧
            second.events = first.events ∧
            second.machine = { first.machine with dialect := other } := by
  intro earlier later split
  subst split
  have before : (machine.speaking other).after earlier = (machine.after earlier).speaking other :=
    after_speaking undivided.left
  refine ⟨before, machine.dialect_after earlier, ?_⟩
  intro action next first second
  obtain ⟨rest, rfl⟩ := List.head?_eq_some_iff.mp next
  have alike := undivided earlier action rest rfl
  have met : second = first.speaking other := by
    change ((machine.speaking other).after earlier).act action = _
    rw [before]
    exact act_speaking alike
  rw [met]
  exact ⟨rfl, rfl, rfl, rfl⟩

/-- A machine whose program shifts, jumps with an offset and stores registers. -/
def shiftJumpStore : Machine :=
  boot .standard (.ofSeed 0)
    [0x81, 0x16, 0x81, 0x2E, 0xB2, 0x08, 0x00, 0x00, 0xAF, 0xFF, 0xF1, 0x55]

/-- The two dialects answer every question differently, but the operands of both shifts are equal,
both registers that the jump may add are zero, and the store finds no room in memory. -/
theorem dialects_in_lockstep_shiftJumpStore :
    let other : Dialect := ⟨false, true, true⟩
    let session := [.cycle, .setKey 3 true, .frame [] 3, .tick, .cycle]
    shiftJumpStore.NeverSeparates other session ∧
      { shiftJumpStore with dialect := other }.after session =
        { shiftJumpStore.after session with dialect := other } := by
  intro other session
  have undivided : shiftJumpStore.NeverSeparates other session := by decide +kernel
  have whole : session = session ++ [] := (List.append_nil session).symm
  exact ⟨undivided, (dialects_in_lockstep _ other session undivided session [] whole).1⟩

end Machine

end Chip8
