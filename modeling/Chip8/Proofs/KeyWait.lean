import Chip8.Proofs.Cycle
import Chip8.Proofs.Perform
import Chip8.Proofs.Session

/-! # Waiting for a key

A machine that waits for a key is polled by its cycles, while time passes and keys go up and down.
`Machine.wait_eq_late_read` says that the polls cannot be seen in the end: the machine that was
polled all the time and the one whose first cycle comes when the key is down are the same machine.
-/

namespace Chip8

/-- Whether an action only lets time pass or moves keys. -/
def Action.isAmbient : Action → Bool
  | .tick | .setKey _ _ | .setKeys _ => true
  | _ => false

namespace Machine

/-- The machine after some ticks, with another keypad. -/
def aged (machine : Machine) (ticks : Nat) (keypad : Keypad) : Machine :=
  { machine with
    delay := ⟨machine.delay.value - ticks⟩
    sound := ⟨machine.sound.value - ticks⟩
    keypad := keypad }

/-- The machine that has begun to wait for a key. -/
def waitingFor (machine : Machine) (x : Register) : Machine :=
  { machine.advanceCounter with awaiting := some x }

variable {machine polled late : Machine} {x : Register} {action : Action} {session : List Action}

private theorem aged_aged (machine : Machine) (first second : Nat) (old new : Keypad) :
    (machine.aged first old).aged second new = machine.aged (first + second) new := by
  simp only [aged, Nat.sub_sub]

private theorem act_ambient (ambient : action.isAmbient) :
    (machine.act action).machine =
      machine.aged ([action].count .tick) (machine.act action).machine.keypad := by
  cases action with
  | tick | setKey | setKeys =>
    rw [aged]
    rfl
  | _ => cases ambient

/-- Ticks and keys change the timers, by the number of ticks, and the keypad. -/
theorem after_ambient (ambient : ∀ action ∈ session, action.isAmbient) :
    machine.after session =
      machine.aged (session.count .tick) (machine.after session).keypad := by
  induction session generalizing machine with
  | nil => rfl
  | cons action session ih =>
    obtain ⟨first, rest⟩ := List.forall_mem_cons.mp ambient
    have counted :
        (action :: session).count .tick = [action].count .tick + session.count .tick := by
      rw [← List.singleton_append, List.count_append]
    rw [after_cons, ih rest, counted, ← aged_aged, ← act_ambient first]
    rfl

/-- The first machine has the wait still ahead of it. The second one has it ahead as well, or has
begun it and is the same machine otherwise. -/
inductive Abreast (x : Register) (late : Machine) : Machine → Prop
  | ahead : Abreast x late late
  | begun : Abreast x late (late.waitingFor x)

private theorem Abreast.keypad_eq (abreast : Abreast x late polled) :
    polled.keypad = late.keypad := by
  cases abreast <;> rfl

/-- Time and keys are the same to both machines. -/
theorem Abreast.act (abreast : Abreast x late polled) (ambient : action.isAmbient) :
    Abreast x (late.act action).machine (polled.act action).machine := by
  cases abreast with
  | ahead => exact .ahead
  | begun =>
    have same : ((late.waitingFor x).act action).machine =
        (late.act action).machine.waitingFor x := by
      cases action with
      | tick | setKey => rfl
      | setKeys keys => simp only [act, Outcome.done, setKeys, waitingFor, advanceCounter]
      | _ => cases ambient
    rw [same]
    exact .begun

/-- A cycle that finds no key down waits, and the other machine need not follow. -/
theorem Abreast.cycle_of_released (abreast : Abreast x late polled)
    (next : late.upcoming? = some (.awaitKey x)) (released : polled.keypad.firstPressed? = none) :
    polled.cycle.result = .ok .wait ∧ Abreast x late polled.cycle.machine := by
  cases abreast with
  | ahead =>
    obtain ⟨result, left⟩ := cycle_of_upcoming next
    obtain ⟨key, pressed, -⟩ | ⟨-, waits⟩ := polled.advanceCounter.awaitKey_cases x
    · cases released.symm.trans pressed
    · rw [result, left, perform, waits]
      exact ⟨rfl, .begun⟩
  | begun =>
    rw [cycle_of_awaiting rfl]
    obtain ⟨key, pressed, -⟩ | ⟨-, waits⟩ := (late.waitingFor x).poll_cases x
    · cases released.symm.trans pressed
    · rw [waits]
      exact ⟨rfl, .begun⟩

/-- A cycle that finds a key down ends in the same machine whether the wait has begun or not. -/
theorem Abreast.cycle_of_pressed (abreast : Abreast x late polled) {key : Key}
    (next : late.upcoming? = some (.awaitKey x)) (pressed : late.keypad.firstPressed? = some key) :
    polled.cycle.result = .ok .quiet ∧
      polled.cycle.machine = late.advanceCounter.setRegister x (UInt8.ofNat key.val) := by
  have ready : late.awaiting = none := (upcoming?_eq_some_iff.mp next).1
  cases abreast with
  | ahead =>
    obtain ⟨result, left⟩ := cycle_of_upcoming next
    obtain ⟨found, same, stored⟩ | ⟨released, -⟩ := polled.advanceCounter.awaitKey_cases x
    · cases same.symm.trans pressed
      rw [result, left, perform, stored]
      exact ⟨rfl, rfl⟩
    · cases released.symm.trans pressed
  | begun =>
    rw [cycle_of_awaiting rfl]
    obtain ⟨found, same, stored⟩ | ⟨released, -⟩ := (late.waitingFor x).poll_cases x
    · cases same.symm.trans pressed
      rw [stored]
      refine ⟨rfl, ?_⟩
      rw [← ready]
      rfl
    · cases released.symm.trans pressed

/-- Between cycles only time passes and keys move, and every cycle finds all keys up. -/
structure Polls (machine : Machine) (session : List Action) : Prop where
  actions : ∀ action ∈ session, action = .cycle ∨ action.isAmbient
  released : ∀ earlier later, session = earlier ++ .cycle :: later →
    ∀ key : Key, (machine.after earlier).keypad.keys.get key = false

private theorem polls_iff_throughout : machine.Polls session ↔
    machine.Throughout (fun machine action =>
      action = .cycle ∧ (∀ key : Key, machine.keypad.keys.get key = false) ∨ action.isAmbient)
      session := by
  constructor
  · intro polls earlier action later split
    obtain rfl | ambient := polls.actions action (by simp [split])
    · exact .inl ⟨rfl, polls.released earlier later split⟩
    · exact .inr ambient
  · intro all
    refine ⟨?_, ?_⟩
    · intro action present
      obtain ⟨earlier, later, split⟩ := List.append_of_mem present
      exact (all earlier action later split).imp_left And.left
    · intro earlier later split
      exact ((all earlier .cycle later split).resolve_right nofun).2

theorem Polls.left {earlier later : List Action} (polls : machine.Polls (earlier ++ later)) :
    machine.Polls earlier :=
  polls_iff_throughout.mpr (polls_iff_throughout.mp polls).left

private theorem polls_nil (machine : Machine) : machine.Polls [] :=
  polls_iff_throughout.mpr throughout_nil

private theorem polls_cons_iff : machine.Polls (action :: session) ↔
    (action = .cycle ∧ (∀ key : Key, machine.keypad.keys.get key = false) ∨ action.isAmbient) ∧
      (machine.act action).machine.Polls session := by
  rw [polls_iff_throughout, throughout_cons_iff, polls_iff_throughout]

instance decidablePolls : (machine : Machine) → (session : List Action) →
    Decidable (machine.Polls session)
  | machine, [] => isTrue machine.polls_nil
  | machine, action :: session =>
    have := decidablePolls (machine.act action).machine session
    decidable_of_iff _ polls_cons_iff.symm

private theorem Polls.ambient (polls : machine.Polls session) :
    ∀ action ∈ session.filter (· ≠ .cycle), action.isAmbient := by
  intro action present
  obtain ⟨inSession, other⟩ := List.mem_filter.mp present
  exact (polls.actions action inSession).resolve_left (of_decide_eq_true other)

private theorem upcoming?_after_ambient (ambient : ∀ action ∈ session, action.isAmbient) :
    (machine.after session).upcoming? = machine.upcoming? := by
  rw [after_ambient ambient]
  rfl

/-- The polls of a session keep the machine abreast of the one that never polls. -/
theorem Abreast.after (abreast : Abreast x late polled)
    (next : late.upcoming? = some (.awaitKey x)) (polls : polled.Polls session) :
    Abreast x (late.after (session.filter (· ≠ .cycle))) (polled.after session) := by
  induction session generalizing late polled with
  | nil => exact abreast
  | cons action session ih =>
    obtain ⟨⟨rfl, up⟩ | ambient, rest⟩ := polls_cons_iff.mp polls
    · have released := (Keypad.firstPressed?_eq_none_iff _).mpr up
      obtain ⟨-, still⟩ := abreast.cycle_of_released next released
      exact ih still next rest
    · have kept : action ≠ .cycle := by
        rintro rfl
        cases ambient
      have stillNext : (late.act action).machine.upcoming? = some (.awaitKey x) := by
        rw [act_ambient ambient]
        exact next
      rw [List.filter_cons, if_pos (decide_eq_true kept)]
      exact ih (abreast.act ambient) stillNext rest

private theorem cycle_of_polls {earlier later : List Action}
    (next : machine.upcoming? = some (.awaitKey x))
    (polls : machine.Polls (earlier ++ .cycle :: later)) :
    (machine.after earlier).cycle.result = .ok .wait := by
  have abreast := Abreast.ahead.after next polls.left
  have stillNext := (upcoming?_after_ambient polls.left.ambient).trans next
  have released := (Keypad.firstPressed?_eq_none_iff _).mpr (polls.released earlier later rfl)
  exact (abreast.cycle_of_released stillNext released).1

/-- Polls for a key cannot be told from carrying out the instruction late. The next instruction
waits for a key; time passes and keys move, cycles find no key down, and in the end a key is down.
Then all cycles so far wait, and the next one stores the lowest key that is down. It leaves the same
machine as if it were the only cycle: only the register, the counter, the timers and the keypad have
changed. -/
theorem wait_eq_late_read (machine : Machine) (x : Register) (session : List Action)
    (next : machine.upcoming? = some (.awaitKey x)) (polls : machine.Polls session)
    (pressed : ∃ key : Key, (machine.after session).keypad.keys.get key = true) :
    let polled := machine.after session
    let late := machine.after (session.filter (· ≠ .cycle))
    (∀ earlier later, session = earlier ++ .cycle :: later →
        (machine.after earlier).cycle.result = .ok .wait) ∧
      polled.cycle.result = .ok .quiet ∧ late.cycle.result = .ok .quiet ∧
      polled.cycle.machine = late.cycle.machine ∧
      ∃ key : Key, polled.keypad.keys.get key = true ∧
        (∀ lower < key, polled.keypad.keys.get lower = false) ∧
        polled.cycle.machine =
          { machine.setRegister x (UInt8.ofNat key.val) with
            counter := machine.counter + 2
            awaiting := none
            delay := ⟨machine.delay.value - session.count .tick⟩
            sound := ⟨machine.sound.value - session.count .tick⟩
            keypad := polled.keypad } ∧
        (machine.counter + 2).toNat = machine.counter.toNat + 2 := by
  intro polled late
  obtain ⟨ready, word, fetched, -⟩ := upcoming?_eq_some_iff.mp next
  have points := (fetch_eq_ok_iff.mp fetched).1
  have abreast : Abreast x late polled := Abreast.ahead.after next polls
  have passed : late = machine.aged (session.count .tick) polled.keypad := by
    have counted : (session.filter (· ≠ .cycle)).count .tick = session.count .tick :=
      List.count_filter (by decide)
    rw [abreast.keypad_eq, ← counted]
    exact after_ambient polls.ambient
  have lateNext := (upcoming?_after_ambient polls.ambient).trans next
  obtain ⟨key, lowest⟩ : ∃ key, polled.keypad.firstPressed? = some key := by
    cases found : polled.keypad.firstPressed? with
    | some key => exact ⟨key, rfl⟩
    | none =>
      obtain ⟨key, down⟩ := pressed
      have up := (Keypad.firstPressed?_eq_none_iff _).mp found key
      cases up.symm.trans down
  obtain ⟨down, below⟩ := (Keypad.firstPressed?_eq_some_iff ..).mp lowest
  rw [abreast.keypad_eq] at lowest
  obtain ⟨polledEnds, polledLeft⟩ := abreast.cycle_of_pressed lateNext lowest
  obtain ⟨lateEnds, lateLeft⟩ := Abreast.ahead.cycle_of_pressed lateNext lowest
  refine ⟨?_, polledEnds, lateEnds, polledLeft.trans lateLeft.symm, key, down, below, ?_, ?_⟩
  · intro earlier later split
    exact cycle_of_polls next (split ▸ polls)
  · rw [polledLeft, passed, ← ready]
    rfl
  · exact toNat_counter_advanceCounter points

/-- A machine whose program waits for a key. -/
def keyReader : Machine := boot .standard (.ofSeed 0) [0xF3, 0x0A]

/-- A key goes down and up between two polls, a tick comes next, and the machine is polled again
before two keys are held. -/
theorem wait_eq_late_read_keyReader :
    let session :=
      [.cycle, .setKey 5 true, .setKey 5 false, .tick, .cycle, .setKeys [false, true, true]]
    keyReader.upcoming? = some (.awaitKey 3) ∧ keyReader.Polls session ∧
      (∃ key : Key, (keyReader.after session).keypad.keys.get key = true) ∧
      (keyReader.after session).cycle.machine =
        (keyReader.after (session.filter (· ≠ .cycle))).cycle.machine := by
  intro session
  have run : keyReader.upcoming? = some (.awaitKey 3) ∧ keyReader.Polls session ∧
      ∃ key : Key, (keyReader.after session).keypad.keys.get key = true := by
    decide +kernel
  obtain ⟨next, polls, pressed⟩ := run
  have same := (wait_eq_late_read keyReader 3 session next polls pressed).2.2.2.1
  exact ⟨next, polls, pressed, same⟩

end Machine

end Chip8
