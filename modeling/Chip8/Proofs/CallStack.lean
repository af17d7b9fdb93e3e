import Chip8.Proofs.Cycle
import Chip8.Proofs.Footprint
import Chip8.Proofs.Session

/-! # Calls and their returns

`Machine.stackMove` lists all that an action can do to the stack, and `Machine.call_returns` follows
from it: whatever happens during a call, the addresses of its callers and the address behind the
call stay where they are, and the cycle that brings the depth back is the return to that address. A
frame does several of these actions at once and is not looked at here.
-/

namespace Chip8.Machine

variable {machine : Machine} {action : Action} {session : List Action} {depth : Nat}

/-- What an action does to the stack. -/
inductive StackMove (machine : Machine) (action : Action) : Prop
  | kept (same : (machine.act action).machine.stack = machine.stack)
  | pushed (address : UInt16) (succeeds : (machine.act action).result = .ok .quiet)
      (grown : (machine.act action).machine.stack = address :: machine.stack)
  | popped (address : UInt16) (cycles : action = .cycle) (returns : machine.upcoming? = some .ret)
      (succeeds : (machine.act action).result = .ok .quiet)
      (shrunk : machine.stack = address :: (machine.act action).machine.stack)
      (resumes : (machine.act action).machine.counter = address)

private theorem stackMove_of_upcoming {instruction : Instruction}
    (next : machine.upcoming? = some instruction) : machine.StackMove .cycle := by
  obtain ⟨result, left⟩ := cycle_of_upcoming next
  by_cases touched : .stack ∈ instruction.touches
  · cases instruction with
    | call target =>
      obtain ⟨-, succeeds, grown⟩ | ⟨-, failed⟩ := machine.advanceCounter.call_cases target
      · refine .pushed machine.advanceCounter.counter (result.trans succeeds) ?_
        rw [machine_act_cycle, left, perform, grown]
        rfl
      · refine .kept ?_
        rw [machine_act_cycle, left, perform, failed]
        rfl
    | ret =>
      obtain ⟨address, stack, stored, succeeds, shrunk⟩ | ⟨-, failed⟩ :=
        machine.advanceCounter.ret_cases
      · refine .popped address rfl next (result.trans succeeds) ?_ ?_
        · rw [machine_act_cycle, left, perform, shrunk]
          exact stored
        · rw [machine_act_cycle, left, perform, shrunk]
      · refine .kept ?_
        rw [machine_act_cycle, left, perform, failed]
        rfl
    | _ => simp [Instruction.touches] at touched
  · refine .kept ?_
    rw [machine_act_cycle, left]
    exact (machine.advanceCounter.perform_sameExcept instruction).stack touched

/-- A cycle pushes an address in a call, takes one off in a return and does nothing else to the
stack, and whatever happens between cycles leaves it alone. -/
theorem stackMove (machine : Machine) {action : Action}
    (single : ∀ keys cycles, action ≠ .frame keys cycles) : machine.StackMove action := by
  cases action with
  | frame keys cycles => exact absurd rfl (single keys cycles)
  | cycle =>
    obtain ⟨x, -, ran⟩ | ⟨fault, -, -, ran⟩ | ⟨word, -, -, -, ran⟩ |
      ⟨word, instruction, ready, fetched, decoded, -⟩ := machine.cycle_cases
    · refine .kept ?_
      rw [machine_act_cycle, ran]
      obtain ⟨key, -, polled⟩ | ⟨-, polled⟩ := machine.poll_cases x
      · rw [polled]
        rfl
      · rw [polled]
    · refine .kept ?_
      rw [machine_act_cycle, ran]
      rfl
    · refine .kept ?_
      rw [machine_act_cycle, ran]
      rfl
    · exact stackMove_of_upcoming ((upcoming?_of_fetch ready fetched).trans decoded)
  | _ => exact .kept (machine.act_between_cycles rfl).stack

private theorem stack_of_failed {fault : Fault} (moved : machine.StackMove action)
    (failed : (machine.act action).result = .error fault) :
    (machine.act action).machine.stack = machine.stack := by
  cases moved with
  | kept same => exact same
  | pushed address succeeds => cases succeeds.symm.trans failed
  | popped address cycles returns succeeds => cases succeeds.symm.trans failed

section Caller

variable {address : UInt16} {callers : List UInt16}

/-- An action that does not come back to the depth of the callers leaves their addresses alone. -/
theorem suffix_stack_act (moved : machine.StackMove action)
    (kept : address :: callers <:+ machine.stack)
    (away : (machine.act action).machine.stack.length ≠ callers.length) :
    address :: callers <:+ (machine.act action).machine.stack := by
  cases moved with
  | kept same => rwa [same]
  | pushed latest succeeds grown =>
    rw [grown]
    exact kept.trans (List.suffix_cons ..)
  | popped latest cycles returns succeeds shrunk =>
    rw [shrunk, List.suffix_cons_iff] at kept
    obtain whole | deeper := kept
    · have same := (List.cons.inj whole).2
      exact absurd (congrArg List.length same.symm) away
    · exact deeper

/-- An action that comes back to the depth of the callers is the return to the kept address. -/
theorem returns_of_length_eq (moved : machine.StackMove action)
    (kept : address :: callers <:+ machine.stack)
    (back : (machine.act action).machine.stack.length = callers.length) :
    action = .cycle ∧ machine.upcoming? = some .ret ∧
      (machine.act action).result = .ok .quiet ∧
      (machine.act action).machine.stack = callers ∧
      (machine.act action).machine.counter = address := by
  have deep := kept.length_le
  rw [List.length_cons] at deep
  cases moved with
  | kept same =>
    rw [same] at back
    omega
  | pushed latest succeeds grown =>
    rw [grown, List.length_cons] at back
    omega
  | popped latest cycles returns succeeds shrunk resumes =>
    rw [shrunk, List.suffix_cons_iff] at kept
    obtain whole | deeper := kept
    · obtain ⟨rfl, left⟩ := List.cons.inj whole
      exact ⟨cycles, returns, succeeds, left.symm, resumes⟩
    · have shorter := deeper.length_le
      rw [List.length_cons] at shorter
      omega

end Caller

/-- The stack is not at this depth at any point of a session, its beginning and end included. -/
def AvoidsDepth (machine : Machine) (depth : Nat) (session : List Action) : Prop :=
  ∀ earlier, earlier <+: session → (machine.after earlier).stack.length ≠ depth

private theorem avoidsDepth_cons_iff : machine.AvoidsDepth depth (action :: session) ↔
    machine.stack.length ≠ depth ∧ (machine.act action).machine.AvoidsDepth depth session := by
  constructor
  · intro avoids
    refine ⟨avoids [] List.nil_prefix, ?_⟩
    intro earlier before
    exact avoids (action :: earlier) (List.cons_prefix_cons.mpr ⟨rfl, before⟩)
  · rintro ⟨first, rest⟩ earlier before
    cases earlier with
    | nil => exact first
    | cons same earlier =>
      obtain ⟨rfl, shorter⟩ := List.cons_prefix_cons.mp before
      exact rest earlier shorter

private theorem avoidsDepth_nil_iff :
    machine.AvoidsDepth depth [] ↔ machine.stack.length ≠ depth := by
  constructor
  · intro avoids
    exact avoids [] List.nil_prefix
  · intro away earlier before
    rwa [List.prefix_nil.mp before]

instance decidableAvoidsDepth (depth : Nat) : (machine : Machine) → (session : List Action) →
    Decidable (machine.AvoidsDepth depth session)
  | _, [] => decidable_of_iff _ avoidsDepth_nil_iff.symm
  | machine, action :: session =>
    have := decidableAvoidsDepth depth (machine.act action).machine session
    decidable_of_iff _ avoidsDepth_cons_iff.symm

private theorem suffix_stack_after {address : UInt16} {callers : List UInt16}
    (single : ∀ keys cycles, .frame keys cycles ∉ session)
    (kept : address :: callers <:+ machine.stack)
    (avoids : machine.AvoidsDepth callers.length session) :
    address :: callers <:+ (machine.after session).stack := by
  induction session generalizing machine with
  | nil => exact kept
  | cons action session ih =>
    obtain ⟨-, rest⟩ := avoidsDepth_cons_iff.mp avoids
    have moved : machine.StackMove action := machine.stackMove fun keys cycles =>
      Ne.symm (List.ne_of_not_mem_cons (single keys cycles))
    have stillKept := suffix_stack_act moved kept (rest [] List.nil_prefix)
    exact ih (fun keys cycles => List.not_mem_of_not_mem_cons (single keys cycles)) stillKept rest

/-- A call stores the address behind itself. -/
theorem stack_of_call {target : UInt16} (calls : machine.upcoming? = some (.call target))
    (room : machine.stack.length < 16) :
    machine.cycle.machine.stack = (machine.counter + 2) :: machine.stack := by
  rw [(cycle_of_upcoming calls).2, perform]
  obtain ⟨-, -, grown⟩ | ⟨full, -⟩ := machine.advanceCounter.call_cases target
  · rw [grown]
    rfl
  · exact absurd full (Nat.not_le.mpr room)

/-- A call stores the address behind itself on top of the stack, which is one address deeper then.

From there on, as long as a session has not brought the stack back to the depth that it had before
the call, the earlier addresses and the address behind the call are its bottom part. The next action
does not touch the stack if it fails, and if it brings the depth back then it is the return from the
call: it leaves the stack as it was before the call and goes on behind the call. -/
theorem call_returns (machine : Machine) (target : UInt16) (session : List Action)
    (action : Action) (calls : machine.upcoming? = some (.call target))
    (room : machine.stack.length < 16)
    (single : ∀ keys cycles, .frame keys cycles ∉ session ++ [action]) :
    let called := machine.cycle.machine
    let inside := called.after session
    let later := called.after (session ++ [action])
    (machine.counter + 2).toNat = machine.counter.toNat + 2 ∧
      called.stackFromBottom = machine.stackFromBottom ++ [machine.counter + 2] ∧
      called.stack.length = machine.stack.length + 1 ∧
      (called.AvoidsDepth machine.stack.length session →
        machine.stackFromBottom ++ [machine.counter + 2] <+: inside.stackFromBottom ∧
        (∀ fault, (inside.act action).result = .error fault → later.stack = inside.stack) ∧
        (later.stack.length = machine.stack.length →
          action = .cycle ∧ inside.upcoming? = some .ret ∧ inside.cycle.result = .ok .quiet ∧
            later.stack = machine.stack ∧ later.counter = machine.counter + 2)) := by
  intro called inside later
  obtain ⟨-, word, fetched, -⟩ := upcoming?_eq_some_iff.mp calls
  have points := (fetch_eq_ok_iff.mp fetched).1
  have stored : called.stack = (machine.counter + 2) :: machine.stack := stack_of_call calls room
  refine ⟨toNat_counter_advanceCounter points, ?_, by rw [stored, List.length_cons], ?_⟩
  · rw [stackFromBottom, stored, List.reverse_cons, stackFromBottom]
  · intro avoids
    have kept : (machine.counter + 2) :: machine.stack <:+ inside.stack := by
      refine suffix_stack_after ?_ (stored ▸ List.suffix_refl _) avoids
      intro keys cycles present
      exact single keys cycles (List.mem_append_left _ present)
    have moved : inside.StackMove action := inside.stackMove fun keys cycles same =>
      single keys cycles (by simp [same])
    have last : later = (inside.act action).machine := after_concat ..
    refine ⟨?_, ?_, ?_⟩
    · have bottom := List.reverse_prefix.mpr kept
      rwa [List.reverse_cons] at bottom
    · intro fault failed
      rw [last]
      exact stack_of_failed moved failed
    · intro back
      rw [last] at back ⊢
      obtain ⟨rfl, returns, succeeds, left, resumes⟩ := returns_of_length_eq moved kept back
      exact ⟨rfl, returns, succeeds, left, resumes⟩

/-- A program that calls a subroutine that calls a second one. -/
def nestedProgram : List UInt8 := [0x22, 0x04, 0x12, 0x02, 0x22, 0x08, 0x00, 0xEE, 0x00, 0xEE]

/-- The machine that runs it. -/
def nestedCalls : Machine := boot .standard (.ofSeed 0) nestedProgram

/-- The first subroutine calls the second one, a tick comes between, the second one returns, and
then the first one does. -/
theorem call_returns_nestedCalls :
    let session := [.cycle, .tick, .cycle]
    let later := nestedCalls.cycle.machine.after (session ++ [.cycle])
    nestedCalls.upcoming? = some (.call 0x204) ∧ nestedCalls.stack.length < 16 ∧
      (∀ keys cycles, .frame keys cycles ∉ session ++ [.cycle]) ∧
      nestedCalls.cycle.machine.AvoidsDepth nestedCalls.stack.length session ∧
      later.stack.length = nestedCalls.stack.length ∧ later.counter = nestedCalls.counter + 2 := by
  intro session later
  have single : ∀ keys cycles, .frame keys cycles ∉ session ++ [.cycle] := by simp [session]
  have run : nestedCalls.upcoming? = some (.call 0x204) ∧ nestedCalls.stack.length < 16 ∧
      nestedCalls.cycle.machine.AvoidsDepth nestedCalls.stack.length session ∧
      later.stack.length = nestedCalls.stack.length := by
    decide +kernel
  obtain ⟨calls, room, avoids, back⟩ := run
  obtain ⟨-, -, -, inside⟩ := call_returns nestedCalls 0x204 session .cycle calls room single
  obtain ⟨-, -, returns⟩ := inside avoids
  exact ⟨calls, room, single, avoids, back, (returns back).2.2.2.2⟩

end Chip8.Machine
