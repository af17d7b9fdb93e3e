import Chip8.Proofs.Cycle
import Chip8.Proofs.Perform
import Chip8.Proofs.Session
import Chip8.Proofs.Sprite

/-! # When a cycle fails, and what it leaves behind

`Machine.FetchFails` and `Machine.Refuses` list the faults of a cycle with the conditions under
which they arise. Both are exact. A failed fetch changes nothing; a refused instruction leaves the
machine behind its own address and changes nothing else, with one exception: a sprite that runs out
of memory stays on the screen as far as it was drawn, and its flag stays cleared.
-/

namespace Chip8.Machine

variable {machine : Machine} {word : Word} {fault : Fault} {instruction : Instruction}

/-- Why an instruction cannot be carried out. -/
inductive Refuses (machine : Machine) : Instruction → Fault → Prop
  | overflow {target : UInt16} (full : 16 ≤ machine.stack.length) :
      Refuses machine (.call target) .stackOverflow
  | underflow (empty : machine.stack = []) : Refuses machine .ret .stackUnderflow
  | decimal {x : Register} (beyond : 4096 < machine.index.toNat + 3) :
      Refuses machine (.decimal x) (.outOfMemory (max machine.index.toNat 4096) 4096)
  | store {x : Register} (beyond : 4096 < machine.index.toNat + x.val + 1) :
      Refuses machine (.store x) (.outOfMemory (max machine.index.toNat 4096) 4096)
  | fill {x : Register} (beyond : 4096 < machine.index.toNat + x.val + 1) :
      Refuses machine (.fill x) (.outOfMemory (max machine.index.toNat 4096) 4096)
  /-- The row `i` of the sprite is on the screen and has no byte in memory. -/
  | draw {x y : Register} {height : Fin 16} (i : Nat) (inSprite : i < height.val)
      (visible : (machine.register y).toNat % 32 + i < 32)
      (missing : 4096 ≤ machine.index.toNat + i) :
      Refuses machine (.draw x y height) (.outOfMemory (max machine.index.toNat 4096) 4096)

private theorem call_eq_error_iff (target : UInt16) :
    (machine.call target).result = .error fault ↔ machine.Refuses (.call target) fault := by
  unfold call
  split
  next room =>
    change machine.stack.length < 16 at room
    constructor
    · intro failed
      cases failed
    · intro refused
      cases refused with
      | overflow full => omega
  next full =>
    change ¬ machine.stack.length < 16 at full
    constructor
    · intro failed
      cases failed
      exact .overflow (by omega)
    · intro refused
      cases refused
      rfl

private theorem ret_eq_error_iff :
    machine.ret.result = .error fault ↔ machine.Refuses .ret fault := by
  unfold ret
  split
  next stored =>
    constructor
    · intro failed
      cases failed
      exact .underflow stored
    · intro refused
      cases refused
      rfl
  next address stack stored =>
    constructor
    · intro failed
      cases failed
    · intro refused
      cases refused with
      | underflow empty =>
        rw [stored] at empty
        cases empty

theorem storeBlock_eq_error_iff (block : List UInt8) (advance : Machine → Machine) :
    (machine.storeBlock block advance).result = .error fault ↔
      fault = .outOfMemory (max machine.index.toNat 4096) 4096 ∧
        4096 < machine.index.toNat + block.length := by
  unfold storeBlock
  by_cases fits : machine.index.toNat + block.length ≤ 4096
  · simp [machine.memory.putBlock_of_fits fits, Nat.not_lt.mpr fits, Outcome.done]
  · have beyond : 4096 < machine.index.toNat + block.length := by omega
    simp [machine.memory.putBlock_of_beyond beyond, beyond, Outcome.failed, Memory.size, eq_comm]

theorem fillRegisters_eq_error_iff (x : Register) :
    (machine.fillRegisters x).result = .error fault ↔
      fault = .outOfMemory (max machine.index.toNat 4096) 4096 ∧
        4096 < machine.index.toNat + x.val + 1 := by
  unfold fillRegisters Memory.readBlock Memory.size
  by_cases fits : machine.index.toNat + (x.val + 1) ≤ 4096
  · have inside : ¬ 4096 < machine.index.toNat + x.val + 1 := by omega
    simp [fits, inside, Outcome.done]
  · have beyond : 4096 < machine.index.toNat + x.val + 1 := by omega
    simp [fits, beyond, Outcome.failed, eq_comm]

theorem drawSprite_eq_error_iff (x y : Register) (height : Fin 16) :
    (machine.drawSprite x y height.val).result = .error fault ↔
      machine.Refuses (.draw x y height) fault := by
  rw [drawSprite_eq, Screen.map_eq_error_iff, drawing, Screen.drawSprite_eq_error_iff]
  constructor
  · rintro ⟨rfl, i, inSprite, visible, missing⟩
    exact .draw i inSprite visible missing
  · intro refused
    cases refused with
    | draw i inSprite visible missing => exact ⟨rfl, i, inSprite, visible, missing⟩

/-- The faults of an instruction are exactly the listed ones. -/
theorem perform_eq_error_iff : (machine.perform instruction).result = .error fault ↔
    machine.Refuses instruction fault := by
  cases instruction with
  | call target => exact call_eq_error_iff target
  | ret => exact ret_eq_error_iff
  | draw x y height => exact drawSprite_eq_error_iff x y height
  | decimal x =>
    refine (storeBlock_eq_error_iff (decimalDigits (machine.register x)) id).trans ⟨?_, ?_⟩
    · rintro ⟨rfl, beyond⟩
      exact .decimal beyond
    · intro refused
      cases refused with
      | decimal beyond => exact ⟨rfl, beyond⟩
  | store x =>
    have size : (machine.registers.toList.take (x.val + 1)).length = x.val + 1 := by
      rw [List.length_take, Vector.length_toList]
      omega
    refine (storeBlock_eq_error_iff _ (·.advanceIndex (x.val + 1))).trans ⟨?_, ?_⟩
    · rintro ⟨rfl, beyond⟩
      exact .store (by rw [size] at beyond; exact beyond)
    · intro refused
      cases refused with
      | store beyond => exact ⟨rfl, by rw [size]; exact beyond⟩
  | fill x =>
    refine (fillRegisters_eq_error_iff x).trans ⟨?_, ?_⟩
    · rintro ⟨rfl, beyond⟩
      exact .fill beyond
    · intro refused
      cases refused with
      | fill beyond => exact ⟨rfl, beyond⟩
  | skipPressed x =>
    refine ⟨fun failed => ?_, fun refused => nomatch refused⟩
    cases (machine.testKey_eq x true).1.symm.trans failed
  | skipReleased x =>
    refine ⟨fun failed => ?_, fun refused => nomatch refused⟩
    cases (machine.testKey_eq x false).1.symm.trans failed
  | awaitKey x =>
    refine ⟨fun failed => ?_, fun refused => nomatch refused⟩
    obtain ⟨key, -, stored⟩ | ⟨-, waits⟩ := machine.awaitKey_cases x
    · rw [perform, stored] at failed
      cases failed
    · rw [perform, waits] at failed
      cases failed
  | _ =>
    constructor
    · intro failed
      cases failed
    · intro refused
      cases refused

/-- The machine after an instruction that could not be carried out. -/
def torn (machine : Machine) : Instruction → Machine
  | .draw x y height => { machine with screen := (machine.drawing x y height.val).2 }.setFlag false
  | _ => machine

private theorem perform_of_refuses (refused : machine.Refuses instruction fault) :
    (machine.perform instruction).machine = machine.torn instruction := by
  have failed := perform_eq_error_iff.mpr refused
  cases refused with
  | overflow full =>
    obtain ⟨room, -⟩ | ⟨-, outcome⟩ := machine.call_cases _
    · omega
    · rw [perform, outcome]
      rfl
  | underflow empty =>
    obtain ⟨address, stack, stored, -⟩ | ⟨-, outcome⟩ := machine.ret_cases
    · rw [empty] at stored
      cases stored
    · rw [perform, outcome]
      rfl
  | decimal =>
    obtain ⟨memory, -, stored⟩ | ⟨_, outcome⟩ := machine.storeBlock_cases _ _
    · rw [perform, stored] at failed
      cases failed
    · rw [perform, outcome]
      rfl
  | store =>
    obtain ⟨memory, -, stored⟩ | ⟨_, outcome⟩ := machine.storeBlock_cases _ _
    · rw [perform, stored] at failed
      cases failed
    · rw [perform, outcome]
      rfl
  | fill =>
    obtain ⟨block, -, filled⟩ | ⟨_, outcome⟩ := machine.fillRegisters_cases _
    · rw [perform, filled] at failed
      cases failed
    · rw [perform, outcome]
      rfl
  | @draw x y height =>
    rw [perform, drawSprite_eq] at failed ⊢
    rw [Screen.map_eq_error_iff] at failed
    rw [failed]
    rfl

/-- Moving the counter changes nothing that an instruction is refused for. -/
theorem refuses_advanceCounter : machine.advanceCounter.Refuses instruction fault ↔
    machine.Refuses instruction fault := by
  constructor
  all_goals
    intro refused
    cases refused with
    | overflow full => exact .overflow full
    | underflow empty => exact .underflow empty
    | decimal beyond => exact .decimal beyond
    | store beyond => exact .store beyond
    | fill beyond => exact .fill beyond
    | draw i inSprite visible missing => exact .draw i inSprite visible missing

private theorem cycle_succeeds_of_awaiting {x : Register} (waiting : machine.awaiting = some x) :
    ∃ signal, machine.cycle.result = .ok signal := by
  rw [cycle_of_awaiting waiting]
  obtain ⟨key, -, polled⟩ | ⟨-, polled⟩ := machine.poll_cases x
  · exact ⟨.quiet, by rw [polled]⟩
  · exact ⟨.wait, by rw [polled]⟩

/-- A cycle that is not a poll fails for want of an instruction or because of the instruction. -/
theorem cycle_eq_error_iff (ready : machine.awaiting = none) :
    machine.cycle.result = .error fault ↔ machine.FetchFails fault ∨
      ∃ word instruction, machine.PointsTo word ∧ word.Encodes instruction ∧
        machine.Refuses instruction fault := by
  constructor
  · intro failed
    obtain ⟨x, waiting, -⟩ | ⟨reason, -, unfetched, ran⟩ | ⟨word, -, -, -, ran⟩ |
      ⟨word, instruction, -, fetched, decoded, ran⟩ := machine.cycle_cases
    · rw [ready] at waiting
      cases waiting
    · rw [ran] at failed
      cases failed
      exact .inl (fetch_eq_error_iff.mp unfetched)
    · rw [ran] at failed
      cases failed
    · rw [ran] at failed
      refine .inr ⟨word, instruction, (fetch_eq_ok_iff.mp fetched).1,
        (Instruction.ofWord?_eq_some_iff ..).mp decoded, ?_⟩
      exact refuses_advanceCounter.mp (perform_eq_error_iff.mp failed)
  · rintro (failed | ⟨word, instruction, points, encodes, refused⟩)
    · rw [cycle_of_fetchFails ready failed]
      rfl
    · rw [(cycle_of_upcoming (upcoming?_of_pointsTo ready points encodes)).1]
      exact perform_eq_error_iff.mpr (refuses_advanceCounter.mpr refused)

/-- The exact failures of a cycle and what each of them leaves behind. Polls never fail. A failed
fetch fails again for ever, because it changes nothing. A refused instruction has moved the counter
behind itself; apart from that only a refused sprite leaves traces, which are the cleared flag and
the pixels of the rows that have a byte in memory. -/
theorem failures_of_cycle (machine : Machine) :
    (∀ x, machine.awaiting = some x → ∃ signal, machine.cycle.result = .ok signal) ∧
    (machine.awaiting = none →
      (∀ fault, machine.cycle.result = .error fault ↔
        machine.FetchFails fault ∨
          ∃ word instruction, machine.PointsTo word ∧ word.Encodes instruction ∧
            machine.Refuses instruction fault) ∧
      (∀ fault, machine.FetchFails fault →
        machine.cycle.machine = machine ∧
          ∀ count, (machine.after (List.replicate count .cycle)).cycle.result = .error fault) ∧
      (∀ word instruction fault, machine.PointsTo word → word.Encodes instruction →
        machine.Refuses instruction fault →
        (machine.counter + 2).toNat = machine.counter.toNat + 2 ∧
        ((∀ x y height, instruction ≠ .draw x y height) →
          machine.cycle.machine = { machine with counter := machine.counter + 2 }) ∧
        (∀ x y height, instruction = .draw x y height →
          machine.cycle.machine = { machine with
            counter := machine.counter + 2
            registers := machine.registers.set 15 0
            screen := machine.cycle.machine.screen } ∧
          ∀ r c, machine.cycle.machine.screen.isLit r c =
            (machine.screen.isLit r c ^^ (decide (r < 32 ∧ c < 64) &&
              machine.memory.spriteBit ((machine.register y).toNat % 32)
                ((machine.register x).toNat % 64) machine.index.toNat height.val r c))))) := by
  refine ⟨fun x => cycle_succeeds_of_awaiting, ?_⟩
  intro ready
  refine ⟨fun fault => cycle_eq_error_iff ready, ?_, ?_⟩
  · intro fault failed
    have stopped := cycle_of_fetchFails ready failed
    refine ⟨by rw [stopped]; rfl, ?_⟩
    intro count
    rw [after_replicate_cycle_of_stopped (by rw [stopped]; rfl), stopped]
    rfl
  · intro word instruction fault points encodes refused
    have next := upcoming?_of_pointsTo ready points encodes
    have left := (cycle_of_upcoming next).2.trans
      (perform_of_refuses (refuses_advanceCounter.mpr refused))
    refine ⟨toNat_counter_advanceCounter points, ?_, ?_⟩
    · intro still
      rw [left]
      cases refused with
      | draw => exact absurd rfl (still _ _ _)
      | _ => rfl
    · rintro x y height rfl
      rw [left]
      refine ⟨rfl, ?_⟩
      intro r c
      exact Screen.isLit_drawSprite ..

/-- A machine about to draw a sprite of two rows, of which only the first has a byte in memory. -/
def overhangingSprite : Machine :=
  (boot .standard (.ofSeed 0) [0xD0, 0x02]).after
    [.setIndex 4095, .poke 4095 [0x80], .setRegister flagRegister 7]

/-- A refused sprite is not without effect: here a pixel stays lit and the flag stays cleared. -/
theorem overhangingSprite_leaves_traces :
    overhangingSprite.upcoming? = some (.draw 0 0 2) ∧
      overhangingSprite.cycle.result = .error (.outOfMemory 4096 4096) ∧
      (overhangingSprite.screen.isLit 0 0 = false ∧
        overhangingSprite.cycle.machine.screen.isLit 0 0 = true) ∧
      (overhangingSprite.register 15 = 7 ∧ overhangingSprite.cycle.machine.register 15 = 0) := by
  have ready : overhangingSprite.awaiting = none := by decide +kernel
  have points : overhangingSprite.PointsTo 0xD002 := ⟨by decide +kernel, by decide +kernel⟩
  have encodes : Word.Encodes 0xD002 (.draw 0 0 2) := ⟨rfl, rfl, rfl, rfl⟩
  have refused : overhangingSprite.Refuses (.draw 0 0 2) (.outOfMemory (max 4095 4096) 4096) :=
    .draw 1 (by decide) (by decide +kernel) (by decide +kernel)
  refine ⟨upcoming?_of_pointsTo ready points encodes, ?_, by decide +kernel, by decide +kernel⟩
  exact (cycle_eq_error_iff ready).mpr (.inr ⟨_, _, points, encodes, refused⟩)

end Chip8.Machine
