import Mathlib.Algebra.Group.Nat.Defs
import Chip8.Proofs.Footprint
import Chip8.Proofs.History

/-! # Which word a draw takes

A machine takes words from its random source in one instruction only, one word each time, whatever
the mask is. `Machine.draws_take_words_in_order` says what this means for a whole session: the words
go to the draws in order, and none of them is passed over or taken twice.
-/

namespace Chip8

/-- The source after so many more words have been taken. -/
def Random.advanced (random : Random) (count : Nat) : Random :=
  { random with taken := random.taken + count }

private theorem Random.advanced_advanced (random : Random) (first second : Nat) :
    (random.advanced first).advanced second = random.advanced (first + second) := by
  simp only [advanced, Nat.add_assoc]

/-- The arithmetic sequence in numbers: wrapping at every step is wrapping once. -/
theorem Random.toNat_word_arithmetic (first increment : UInt64) (k : Nat) :
    ((ofSequence (.arithmetic first increment)).word k).toNat =
      (first.toNat + k * increment.toNat) % 2 ^ 64 := by
  change (first + UInt64.ofNat k * increment).toNat = _
  rw [UInt64.toNat_add, UInt64.toNat_mul, UInt64.toNat_ofNat', Nat.mod_mul_mod, Nat.add_mod_mod]

/-- Whether an instruction sets a register to a random byte. -/
def Instruction.isRandom : Instruction → Bool
  | .random _ _ => true
  | _ => false

namespace Machine

variable {machine : Machine} {session : List Action}

/-- Whether the next cycle draws a random byte. -/
def drawsNext (machine : Machine) : Bool := machine.upcoming?.any Instruction.isRandom

/-- The machines of a session whose next cycle draws a random byte. -/
def draws (machine : Machine) (session : List Action) : List Machine :=
  (machine.visited session).filter drawsNext

private theorem drawsNext_iff :
    machine.drawsNext = true ↔ ∃ x mask, machine.upcoming? = some (.random x mask) := by
  unfold drawsNext
  cases machine.upcoming? with
  | none => simp
  | some instruction => cases instruction <;> simp [Instruction.isRandom]

/-- A draw takes the next word and masks its low byte. -/
theorem cycle_of_random {x : Register} {mask : UInt8}
    (next : machine.upcoming? = some (.random x mask)) :
    machine.cycle.result = .ok .quiet ∧
      machine.cycle.machine.register x =
        mask &&& (machine.random.word machine.random.taken).toUInt8 ∧
      machine.cycle.machine.random = machine.random.advanced 1 := by
  obtain ⟨result, left⟩ := cycle_of_upcoming next
  refine ⟨result, ?_, by rw [left]; rfl⟩
  rw [left]
  exact (register_setRegister _ x x _).trans (if_pos rfl)

private theorem random_cycle_of_not_drawsNext (other : machine.drawsNext = false) :
    machine.cycle.machine.random = machine.random := by
  apply machine.cycle_sameExcept.random
  unfold touchedNext
  unfold drawsNext at other
  cases next : machine.upcoming? with
  | none => simp
  | some instruction =>
    rw [next] at other
    cases instruction with
    | random x mask => cases other
    | _ => simp [Instruction.touches]

private theorem draws_unrolled (machine : Machine) (session : List Action) :
    machine.draws (machine.unrolled session) = machine.draws session := by
  rw [draws, visited_unrolled, draws]

private theorem draws_cycle_cons (machine : Machine) (session : List Action) :
    machine.draws (.cycle :: session) =
      if machine.drawsNext then machine :: machine.cycle.machine.draws session
      else machine.cycle.machine.draws session :=
  List.filter_cons

private theorem draws_cons_of_between {action : Action} (between : action.runsCycles = false) :
    machine.draws (action :: session) = (machine.act action).machine.draws session := by
  cases action with
  | cycle | frame => cases between
  | _ => rfl

/-- Every word that was taken is the word of one draw, and the draws before it took the words
before it. -/
theorem random_of_draws (single : ∀ keys cycles, .frame keys cycles ∉ session) :
    (machine.after session).random = machine.random.advanced (machine.draws session).length ∧
      ∀ k met, (machine.draws session)[k]? = some met → met.random = machine.random.advanced k := by
  induction session generalizing machine with
  | nil => exact ⟨rfl, by simp [draws, visited]⟩
  | cons action session ih =>
    have rest := fun keys cycles => List.not_mem_of_not_mem_cons (single keys cycles)
    obtain ⟨left, met⟩ := @ih (machine.act action).machine rest
    obtain rfl | between := eq_cycle_or_between single List.mem_cons_self
    · rw [machine_act_cycle] at left met
      rw [draws_cycle_cons, after_cons, machine_act_cycle, left]
      cases draws : machine.drawsNext with
      | false =>
        rw [random_cycle_of_not_drawsNext draws] at met ⊢
        exact ⟨rfl, met⟩
      | true =>
        obtain ⟨x, mask, next⟩ := drawsNext_iff.mp draws
        rw [(cycle_of_random next).2.2] at met ⊢
        refine ⟨?_, ?_⟩
        · rw [Random.advanced_advanced, if_pos rfl, List.length_cons, Nat.add_comm]
        · intro k drawing present
          cases k with
          | zero =>
            cases present
            rfl
          | succ k =>
            rw [met k drawing present, Random.advanced_advanced, Nat.add_comm]
    · have alone := (machine.act_between_cycles between).random
      rw [alone] at left met
      rw [draws_cons_of_between between, after_cons]
      exact ⟨left, met⟩

/-- The words of a random source go to the draws of a session in order. However cycles, frames and
changes from outside are mixed, and whether they succeed, fail, wait or pass over a word, as many
words are taken as draws were carried out, and the draw that comes after `k` others stores the low
byte of the word at position `k` under its mask. A draw takes its word whatever its mask is, and no
other cycle and nothing between cycles takes one. The two sequences of the library are instances:
the words of the arithmetic one are its sums modulo `2 ^ 64`, and a seed selects a key stream. -/
theorem draws_take_words_in_order (dialect : Dialect) (words : Nat → UInt64)
    (program : List UInt8) (session : List Action) :
    let start := boot dialect ⟨words, 0⟩ program
    let draws := start.draws session
    (start.after session).random = ⟨words, draws.length⟩ ∧
      (∀ k met, draws[k]? = some met → ∃ x mask,
        met.upcoming? = some (.random x mask) ∧ met.cycle.result = .ok .quiet ∧
          met.cycle.machine.register x = mask &&& (words k).toUInt8 ∧
          met.cycle.machine.random = ⟨words, k + 1⟩) ∧
      (∀ met : Machine, (∀ x mask, met.upcoming? ≠ some (.random x mask)) →
        met.cycle.machine.random = met.random) ∧
      (∀ (met : Machine) (action : Action), action.runsCycles = false →
        (met.act action).machine.random = met.random) ∧
      (∀ (first increment : UInt64) (k : Nat),
        ((Random.ofSequence (.arithmetic first increment)).word k).toNat =
          (first.toNat + k * increment.toNat) % 2 ^ 64) ∧
      ∀ seed : UInt64,
        Random.ofSeed seed = ⟨fun k => (KeyStream.word (.ofSeed seed) k).toUInt64, 0⟩ := by
  intro start draws
  have single := start.frame_not_mem_unrolled session
  obtain ⟨left, met⟩ := random_of_draws single
  rw [after_unrolled, draws_unrolled] at left
  rw [draws_unrolled] at met
  refine ⟨?_, ?_, ?_, ?_, Random.toNat_word_arithmetic, fun _ => rfl⟩
  · rw [left]
    exact congrArg (Random.mk words) (Nat.zero_add _)
  · intro k drawing present
    have position : drawing.random = ⟨words, k⟩ :=
      (met k drawing present).trans (congrArg (Random.mk words) (Nat.zero_add k))
    have draws : drawing.drawsNext = true :=
      (List.mem_filter.mp (List.mem_of_getElem? present)).2
    obtain ⟨x, mask, next⟩ := drawsNext_iff.mp draws
    obtain ⟨result, stored, taken⟩ := cycle_of_random next
    rw [position] at stored taken
    exact ⟨x, mask, next, result, stored, taken⟩
  · intro other undrawn
    apply random_cycle_of_not_drawsNext
    rw [Bool.eq_false_iff]
    intro draws
    obtain ⟨x, mask, next⟩ := drawsNext_iff.mp draws
    exact undrawn x mask next
  · intro other action between
    exact (other.act_between_cycles between).random

end Machine

end Chip8
