import Chip8.Machine.Cycle
import Chip8.Proofs.Encoding

/-! # The shape of a cycle

A cycle is one of four things: a poll of the keypad, a failed fetch, a word outside the language
that is passed over, or an instruction carried out behind its own address. `Machine.cycle_cases`
says so once for all later proofs. A fetch is described by the two bytes at the counter, without
mention of how words are read.
-/

namespace Chip8

theorem Word.toNat_ofBytes (high low : UInt8) :
    (Word.ofBytes high low).toNat = 256 * high.toNat + low.toNat := by
  have highBound := high.toNat_lt
  have lowBound := low.toNat_lt
  rw [Word.ofBytes, UInt16.toNat_ofNat']
  omega

namespace Machine

variable {machine : Machine} {word : Word} {fault : Fault} {instruction : Instruction}

/-- The two bytes at the counter are in memory and make up the word, the high byte first. -/
def PointsTo (machine : Machine) (word : Word) : Prop :=
  ∃ inside : machine.counter.toNat + 1 < 4096,
    word.toNat = 256 * machine.memory.bytes[machine.counter.toNat].toNat +
      machine.memory.bytes[machine.counter.toNat + 1].toNat

/-- Why there is nothing to execute at the counter. -/
inductive FetchFails (machine : Machine) : Fault → Prop
  | outside (beyond : 4095 ≤ machine.counter.toNat) :
      FetchFails machine (.outOfMemory (max machine.counter.toNat 4096) 4096)
  | zero (empty : machine.PointsTo 0) : FetchFails machine (.emptyFetch machine.counter.toNat)

private theorem word_eq_ok_iff : machine.memory.word machine.counter.toNat = .ok word ↔
    machine.PointsTo word := by
  unfold Memory.word Word.fetch PointsTo
  by_cases inside : machine.counter.toNat + 1 < 4096
  · have before : machine.counter.toNat < 4096 := by omega
    simp [inside, before, ← UInt16.toNat_inj, Word.toNat_ofBytes, eq_comm]
  · have missing : machine.memory.bytes.toArray[machine.counter.toNat + 1]? = none := by
      simp; omega
    rw [missing]
    cases machine.memory.bytes.toArray[machine.counter.toNat]? <;> simp [inside]

private theorem word_of_beyond (beyond : 4095 ≤ machine.counter.toNat) :
    machine.memory.word machine.counter.toNat =
      .error (.outOfMemory (max machine.counter.toNat 4096) 4096) := by
  unfold Memory.word Word.fetch
  by_cases last : machine.counter.toNat = 4095
  · simp [last]
  · have past : max machine.counter.toNat 4096 = machine.counter.toNat := by omega
    have outside : ¬ machine.counter.toNat < 4096 := by omega
    simp [outside, past]

private theorem exists_pointsTo (machine : Machine) (inside : machine.counter.toNat + 1 < 4096) :
    ∃ word, machine.PointsTo word :=
  ⟨.ofBytes machine.memory.bytes[machine.counter.toNat]
    machine.memory.bytes[machine.counter.toNat + 1], inside, Word.toNat_ofBytes ..⟩

theorem fetch_eq_ok_iff : machine.fetch = .ok word ↔ machine.PointsTo word ∧ word ≠ 0 := by
  rw [← word_eq_ok_iff, fetch]
  cases machine.memory.word machine.counter.toNat with
  | error fault => simp
  | ok found => grind

theorem fetch_eq_error_iff : machine.fetch = .error fault ↔ machine.FetchFails fault := by
  by_cases beyond : 4095 ≤ machine.counter.toNat
  · have nowhere : ¬ machine.PointsTo 0 := by
      rintro ⟨inside, -⟩
      omega
    rw [fetch, word_of_beyond beyond]
    constructor
    · intro same
      cases same
      exact .outside beyond
    · rintro (⟨-⟩ | ⟨empty⟩)
      · rfl
      · exact absurd empty nowhere
  · obtain ⟨found, points⟩ := machine.exists_pointsTo (by omega)
    rw [fetch, word_eq_ok_iff.mpr points]
    by_cases empty : found = 0
    · subst empty
      constructor
      · intro same
        cases same
        exact .zero points
      · rintro (⟨past⟩ | ⟨-⟩)
        · exact absurd past beyond
        · rfl
    · have other : ¬ machine.PointsTo 0 := by
        intro zero
        have same := (word_eq_ok_iff.mpr points).symm.trans (word_eq_ok_iff.mpr zero)
        exact empty (Except.ok.inj same)
      simp only [if_neg empty]
      constructor
      · intro same
        cases same
      · rintro (⟨past⟩ | ⟨zero⟩)
        · exact absurd past beyond
        · exact absurd zero other

/-- A fetched instruction ends inside of memory, so the counter moves on without wrapping. -/
theorem toNat_counter_advanceCounter (points : machine.PointsTo word) :
    machine.advanceCounter.counter.toNat = machine.counter.toNat + 2 := by
  obtain ⟨inside, -⟩ := points
  change (machine.counter + 2).toNat = _
  rw [UInt16.toNat_add]
  change (machine.counter.toNat + 2) % 65536 = _
  omega

theorem cycle_of_awaiting {x : Register} (waiting : machine.awaiting = some x) :
    machine.cycle = machine.poll x := by
  simp only [cycle, waiting]

theorem cycle_of_fetchFails (ready : machine.awaiting = none) (failed : machine.FetchFails fault) :
    machine.cycle = .failed fault machine := by
  have unfetched := fetch_eq_error_iff.mpr failed
  simp only [cycle, ready, unfetched]

theorem cycle_of_pointsTo (ready : machine.awaiting = none) (points : machine.PointsTo word)
    (filled : word ≠ 0) : machine.cycle = machine.advanceCounter.execute word := by
  have fetched := fetch_eq_ok_iff.mpr ⟨points, filled⟩
  simp only [cycle, ready, fetched]

theorem execute_of_encodes (machine : Machine) (encodes : word.Encodes instruction) :
    machine.execute word =
      { machine.perform instruction with
        events := .executing word instruction :: (machine.perform instruction).events } := by
  have decoded := (Instruction.ofWord?_eq_some_iff word instruction).mpr encodes
  simp only [execute, Instruction.decode, decoded]

theorem execute_of_unknown (machine : Machine) (unknown : Instruction.ofWord? word = none) :
    machine.execute word =
      { Outcome.done machine with events := [.skipped (.unsupported word)] } := by
  simp only [execute, Instruction.decode, unknown]

/-- The four things that a cycle can be. -/
theorem cycle_cases (machine : Machine) :
    (∃ x, machine.awaiting = some x ∧ machine.cycle = machine.poll x) ∨
    (∃ fault, machine.awaiting = none ∧ machine.fetch = .error fault ∧
      machine.cycle = .failed fault machine) ∨
    (∃ word, machine.awaiting = none ∧ machine.fetch = .ok word ∧
      Instruction.ofWord? word = none ∧
      machine.cycle =
        { Outcome.done machine.advanceCounter with events := [.skipped (.unsupported word)] }) ∨
    (∃ word instruction, machine.awaiting = none ∧ machine.fetch = .ok word ∧
      Instruction.ofWord? word = some instruction ∧
      machine.cycle =
        { machine.advanceCounter.perform instruction with
          events := .executing word instruction ::
            (machine.advanceCounter.perform instruction).events }) := by
  cases waiting : machine.awaiting with
  | some x => exact .inl ⟨x, rfl, cycle_of_awaiting waiting⟩
  | none =>
    refine .inr ?_
    cases fetched : machine.fetch with
    | error fault =>
      have failed := fetch_eq_error_iff.mp fetched
      exact .inl ⟨fault, rfl, rfl, cycle_of_fetchFails waiting failed⟩
    | ok word =>
      refine .inr ?_
      obtain ⟨points, filled⟩ := fetch_eq_ok_iff.mp fetched
      have executed := cycle_of_pointsTo waiting points filled
      cases decoded : Instruction.ofWord? word with
      | none => exact .inl ⟨word, rfl, rfl, decoded, executed.trans (execute_of_unknown _ decoded)⟩
      | some instruction =>
        have encodes := (Instruction.ofWord?_eq_some_iff word instruction).mp decoded
        exact .inr ⟨word, instruction, rfl, rfl, decoded,
          executed.trans (execute_of_encodes _ encodes)⟩

/-- The instruction that the next cycle carries out, if it carries one out. -/
def upcoming? (machine : Machine) : Option Instruction :=
  match machine.awaiting, machine.fetch with
  | none, .ok word => Instruction.ofWord? word
  | _, _ => none

theorem upcoming?_of_fetch (ready : machine.awaiting = none) (fetched : machine.fetch = .ok word) :
    machine.upcoming? = Instruction.ofWord? word := by
  simp only [upcoming?, ready, fetched]

theorem upcoming?_eq_some_iff : machine.upcoming? = some instruction ↔
    machine.awaiting = none ∧
      ∃ word, machine.fetch = .ok word ∧ word.Encodes instruction := by
  simp only [← Instruction.ofWord?_eq_some_iff]
  unfold upcoming?
  cases machine.awaiting <;> cases machine.fetch <;> simp

theorem cycle_of_upcoming (next : machine.upcoming? = some instruction) :
    machine.cycle.result = (machine.advanceCounter.perform instruction).result ∧
      machine.cycle.machine = (machine.advanceCounter.perform instruction).machine := by
  obtain ⟨ready, word, fetched, encodes⟩ := upcoming?_eq_some_iff.mp next
  obtain ⟨points, filled⟩ := fetch_eq_ok_iff.mp fetched
  rw [cycle_of_pointsTo ready points filled, execute_of_encodes _ encodes]
  exact ⟨rfl, rfl⟩

theorem ne_zero_of_encodes (encodes : word.Encodes instruction) : word ≠ 0 := by
  rintro rfl
  have decoded := (Instruction.ofWord?_eq_some_iff 0 instruction).mpr encodes
  cases decoded

theorem upcoming?_of_pointsTo (ready : machine.awaiting = none) (points : machine.PointsTo word)
    (encodes : word.Encodes instruction) : machine.upcoming? = some instruction :=
  upcoming?_eq_some_iff.mpr
    ⟨ready, word, fetch_eq_ok_iff.mpr ⟨points, ne_zero_of_encodes encodes⟩, encodes⟩

end Machine

end Chip8
