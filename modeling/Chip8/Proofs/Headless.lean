import Chip8.CommandLine
import Chip8.Proofs.Footprint
import Chip8.Proofs.Run

/-! # Runs without a display

A headless run is told how many frames it may take. `CommandLine.report_of_more_frames` says what
the report on it has to do with the number: up to the first cycle that fails, more frames go on from
where fewer ended, and from then on the report stays the same. It also stays the same once the
machine waits for a key with both timers run down, since nobody will press one.
-/

namespace Chip8

/-- Taking one's fingers off the keypad. -/
def Action.release : Action := .setKeys (List.replicate 16 false)

/-- A frame without a key and without a fault, in single steps. -/
def idleFrame : List Action := .release :: List.replicate 8 .cycle ++ [.tick]

/-- So many of these frames. -/
def idleFrames (count : Nat) : List Action := (List.replicate count idleFrame).flatten

private theorem idleFrames_one : idleFrames 1 = idleFrame := by
  rw [idleFrames, List.replicate_one, List.flatten_singleton]

private theorem idleFrames_add (first second : Nat) :
    idleFrames (first + second) = idleFrames first ++ idleFrames second := by
  rw [idleFrames, ← List.replicate_append_replicate, List.flatten_append, idleFrames, idleFrames]

namespace Machine

variable {machine : Machine} {count k j : Nat} {fault : Fault}

/-- The machine at the first cycle of a frame. -/
def atFrame (machine : Machine) (k : Nat) : Machine :=
  machine.after (idleFrames k ++ [.release])

/-- No cycle of the first frames fails. -/
def RunsThrough (machine : Machine) (count : Nat) : Prop :=
  ∀ k < count, (machine.atFrame k).SucceedsFor 8

/-- The first cycle that fails is the cycle `j` of the frame `k`. -/
structure HaltsAt (machine : Machine) (k j : Nat) (fault : Fault) : Prop where
  earlier : machine.RunsThrough k
  inFrame : j < 8
  fails : (machine.atFrame k).FailsAfter j fault

private theorem runsThrough_or_haltsAt (machine : Machine) (count : Nat) :
    machine.RunsThrough count ∨ ∃ k < count, ∃ j fault, machine.HaltsAt k j fault := by
  induction count with
  | zero => exact .inl nofun
  | succ count ih =>
    obtain through | ⟨k, within, halts⟩ := ih
    · obtain succeeds | ⟨j, inFrame, fault, fails⟩ :=
        (machine.atFrame count).succeedsFor_or_failsAfter 8
      · refine .inl fun k within => ?_
        obtain earlier | rfl := Nat.lt_succ_iff_lt_or_eq.mp within
        · exact through k earlier
        · exact succeeds
      · exact .inr ⟨count, Nat.lt_succ_self count, j, fault, through, inFrame, fails⟩
    · exact .inr ⟨k, Nat.lt_succ_of_lt within, halts⟩

private theorem atFrame_add (machine : Machine) (first k : Nat) :
    machine.atFrame (first + k) = (machine.after (idleFrames first)).atFrame k := by
  rw [atFrame, idleFrames_add, List.append_assoc, after_append, atFrame]

private theorem runsThrough_add_iff {first : Nat} : machine.RunsThrough (first + count) ↔
    machine.RunsThrough first ∧ (machine.after (idleFrames first)).RunsThrough count := by
  constructor
  · intro through
    refine ⟨fun k within => through k (by omega), ?_⟩
    intro k within
    rw [← atFrame_add]
    exact through (first + k) (by omega)
  · rintro ⟨before, rest⟩ k within
    by_cases early : k < first
    · exact before k early
    · obtain ⟨later, rfl⟩ := Nat.exists_eq_add_of_le (Nat.le_of_not_lt early)
      rw [atFrame_add]
      exact rest later (by omega)

private theorem RunsThrough.of_le {fewer : Nat} (through : machine.RunsThrough count)
    (within : fewer ≤ count) : machine.RunsThrough fewer :=
  fun k earlier => through k (Nat.lt_of_lt_of_le earlier within)

/-- A machine does not halt in a frame that it runs through. -/
theorem HaltsAt.not_runsThrough (halts : machine.HaltsAt k j fault) (within : k < count) :
    ¬ machine.RunsThrough count := by
  intro through
  have succeeds := through k within j halts.inFrame
  rw [halts.fails.fails] at succeeds
  cases succeeds

private theorem runFrames_succ (machine : Machine) (count : Nat) :
    machine.runFrames (count + 1) =
      match (machine.frame (List.replicate 16 false) 8).result with
      | .ok _ => runFrames count (machine.frame (List.replicate 16 false) 8).machine
      | .error fault => ((machine.frame (List.replicate 16 false) 8).machine, some fault) := rfl

private theorem runFrames_succ_of_succeedsFor (succeeds : (machine.atFrame 0).SucceedsFor 8) :
    machine.runFrames (count + 1) = (machine.after idleFrame).runFrames count := by
  have pressed : (machine.setKeys (List.replicate 16 false)).SucceedsFor 8 := succeeds
  obtain ⟨completed, left⟩ := frame_of_succeedsFor pressed
  rw [runFrames_succ, left]
  cases ended : (machine.frame (List.replicate 16 false) 8).result with
  | ok signal => rfl
  | error fault =>
    rw [ended] at completed
    cases completed

/-- Frames that succeed are left behind. -/
theorem runFrames_add {first : Nat} (through : machine.RunsThrough first) (count : Nat) :
    machine.runFrames (first + count) = (machine.after (idleFrames first)).runFrames count := by
  induction first generalizing machine with
  | zero =>
    rw [Nat.zero_add]
    rfl
  | succ first ih =>
    rw [Nat.add_comm first 1] at through ⊢
    obtain ⟨here, rest⟩ := runsThrough_add_iff.mp through
    rw [Nat.add_assoc, Nat.add_comm 1, runFrames_succ_of_succeedsFor (here 0 Nat.one_pos),
      idleFrames_add, after_append, ← idleFrames_one]
    exact ih rest

private theorem runFrames_of_runsThrough (through : machine.RunsThrough count) :
    machine.runFrames count = (machine.after (idleFrames count), none) :=
  runFrames_add through 0

/-- The loop ends with the first cycle that fails, however many frames there could be. -/
theorem runFrames_of_haltsAt (halts : machine.HaltsAt k j fault) (within : k < count) :
    machine.runFrames count =
      (machine.after (idleFrames k ++ .release :: List.replicate (j + 1) .cycle), some fault) := by
  obtain ⟨rest, rfl⟩ := Nat.exists_eq_add_of_lt within
  have fails : ((machine.after (idleFrames k)).setKeys
      (List.replicate 16 false)).FailsAfter j fault := by
    have met := halts.fails
    rw [atFrame, after_append] at met
    exact met
  obtain ⟨result, left⟩ := frame_of_failsAfter fails halts.inFrame
  rw [Nat.add_assoc, runFrames_add halts.earlier, runFrames_succ, result, left, after_append]
  rfl

/-- The machine waits for a key, no key is down, and the timers have run down. -/
structure IsStalled (machine : Machine) : Prop where
  waits : machine.awaiting.isSome
  delay : machine.delay = .zero
  sound : machine.sound = .zero
  keypad : machine.keypad = .released

theorem IsStalled.release (stalled : machine.IsStalled) :
    (machine.act .release).machine = machine := by
  have same : Keypad.ofList (List.replicate 16 false) = machine.keypad := by
    rw [stalled.keypad]
    decide
  change machine.setKeys (List.replicate 16 false) = machine
  rw [setKeys, same]

theorem IsStalled.cycle (stalled : machine.IsStalled) :
    machine.cycle.result.isOk ∧ machine.cycle.machine = machine := by
  obtain ⟨x, waiting⟩ := Option.isSome_iff_exists.mp stalled.waits
  have up : machine.keypad.firstPressed? = none := by
    rw [stalled.keypad]
    decide
  obtain ⟨key, pressed, -⟩ | ⟨-, polled⟩ := machine.poll_cases x
  · cases up.symm.trans pressed
  · rw [cycle_of_awaiting waiting, polled]
    exact ⟨rfl, rfl⟩

theorem IsStalled.tick (stalled : machine.IsStalled) : machine.tick = machine := by
  have delay : machine.delay.tick = machine.delay := by
    rw [stalled.delay]
    rfl
  have sound : machine.sound.tick = machine.sound := by
    rw [stalled.sound]
    rfl
  rw [Machine.tick, delay, sound]

private theorem IsStalled.after_cycles (stalled : machine.IsStalled) (count : Nat) :
    machine.after (List.replicate count .cycle) = machine :=
  after_replicate_cycle_of_stopped stalled.cycle.2 count

private theorem IsStalled.after_idleFrames (stalled : machine.IsStalled) (count : Nat) :
    machine.after (idleFrames count) = machine := by
  have once : machine.after idleFrame = machine := by
    rw [idleFrame, after_concat, after_cons, stalled.release, stalled.after_cycles]
    exact stalled.tick
  induction count with
  | zero => rfl
  | succ count ih => rw [idleFrames_add, after_append, ih, idleFrames_one, once]

private theorem IsStalled.runsThrough (stalled : machine.IsStalled) (count : Nat) :
    machine.RunsThrough count := by
  intro k _ cycles _
  have same : machine.atFrame k = machine := by
    rw [atFrame, after_concat, stalled.after_idleFrames, stalled.release]
  rw [same, stalled.after_cycles]
  exact stalled.cycle.1

private theorem keypad_after_cycles (machine : Machine) (count : Nat) :
    (machine.after (List.replicate count .cycle)).keypad = machine.keypad := by
  induction count generalizing machine with
  | zero => rfl
  | succ count ih =>
    rw [List.replicate_succ, after_cons, ih]
    exact machine.cycle_sameExcept.keypad

private theorem keypad_after_idleFrames (up : machine.keypad = .released) (count : Nat) :
    (machine.after (idleFrames count)).keypad = .released := by
  cases count with
  | zero => exact up
  | succ count =>
    rw [idleFrames_add, after_append, idleFrames_one, idleFrame, after_concat, after_cons]
    refine (keypad_after_cycles _ 8).trans ?_
    change Keypad.ofList (List.replicate 16 false) = Keypad.released
    decide

end Machine

namespace Console

variable {console : Console} {count k j : Nat} {fault : Fault}

private theorem headless_of_runsThrough (through : console.machine.RunsThrough count) :
    console.headless count = ⟨0, (console.after (idleFrames count)).dump ++ "\n", ""⟩ := by
  rw [headless, Machine.runFrames_of_runsThrough through]
  rfl

private theorem headless_of_haltsAt (halts : console.machine.HaltsAt k j fault)
    (within : k < count) :
    console.headless count =
      ⟨1, (console.after (idleFrames k ++ .release :: List.replicate (j + 1) .cycle)).dump ++ "\n",
        fault.message ++ "\n"⟩ := by
  rw [headless, Machine.runFrames_of_haltsAt halts within]
  rfl

private theorem exitCode_headless_eq_zero_iff :
    (console.headless count).exitCode = 0 ↔ console.machine.RunsThrough count := by
  obtain through | ⟨k, within, j, fault, halts⟩ := console.machine.runsThrough_or_haltsAt count
  · rw [headless_of_runsThrough through]
    exact ⟨fun _ => through, fun _ => rfl⟩
  · rw [headless_of_haltsAt halts within]
    exact ⟨nofun, fun through => absurd through (halts.not_runsThrough within)⟩

private theorem exists_haltsAt (failed : (console.headless count).exitCode ≠ 0) :
    ∃ k < count, ∃ j fault, console.machine.HaltsAt k j fault :=
  (console.machine.runsThrough_or_haltsAt count).resolve_left
    (mt exitCode_headless_eq_zero_iff.mpr failed)

private theorem headless_of_isStalled {pause more : Nat}
    (through : console.machine.RunsThrough pause)
    (stalled : (console.machine.after (idleFrames pause)).IsStalled) (later : pause ≤ more) :
    console.headless more = console.headless pause := by
  obtain ⟨rest, rfl⟩ := Nat.exists_eq_add_of_le later
  have further : console.machine.RunsThrough (pause + rest) :=
    Machine.runsThrough_add_iff.mpr ⟨through, stalled.runsThrough rest⟩
  have same : console.after (idleFrames (pause + rest)) = console.after (idleFrames pause) := by
    rw [after, idleFrames_add, Machine.after_append, stalled.after_idleFrames, after]
  rw [headless_of_runsThrough further, headless_of_runsThrough through, same]

end Console

namespace CommandLine

/-- The reports on one rom for different numbers of frames. A run exits with zero if and only if no
cycle of its frames fails; it prints the machine after these frames, and no error. Otherwise it
prints the machine that the first failing cycle leaves, before the tick of its frame, and the text
of the fault, and every run with at least as many frames reports the same. A run with fewer frames
than one that exits with zero exits with zero. If a machine waits for a key after some of its frames
and both timers have run down, no further frame makes a difference. -/
theorem report_of_more_frames (options : RunOptions) (entropy : UInt64) (bytes : List UInt8) :
    let run (frames : Nat) : Report :=
      (Request.run { options with frames := frames }).report entropy (.ok bytes)
    let console := Console.insert (.ofBytes (Rom.nameOfPath options.rom) bytes) options.dialect
      (options.random entropy)
    let printed (session : List Action) : String := (console.after session).dump ++ "\n"
    (∀ frames, (run frames).exitCode = 0 ↔ console.machine.RunsThrough frames) ∧
      (∀ frames, (run frames).exitCode = 0 → run frames = ⟨0, printed (idleFrames frames), ""⟩) ∧
      (∀ frames, (run frames).exitCode ≠ 0 → ∃ k < frames, ∃ j fault,
        console.machine.HaltsAt k j fault ∧ ∀ more > k, run more =
          ⟨1, printed (idleFrames k ++ .release :: List.replicate (j + 1) .cycle),
            fault.message ++ "\n"⟩) ∧
      (∀ frames more, frames ≤ more → (run frames).exitCode = 1 → run more = run frames) ∧
      (∀ frames fewer, fewer ≤ frames → (run frames).exitCode = 0 → (run fewer).exitCode = 0) ∧
      ∀ frames pause, pause ≤ frames → (run frames).exitCode = 0 →
        let paused := console.machine.after (idleFrames pause)
        paused.awaiting.isSome → paused.delay.value = 0 → paused.sound.value = 0 →
          ∀ more ≥ pause, run more = run pause := by
  intro run console printed
  have reported (frames : Nat) : run frames = console.headless frames := rfl
  simp only [reported]
  refine ⟨fun frames => Console.exitCode_headless_eq_zero_iff, ?_, ?_, ?_, ?_, ?_⟩
  · intro frames succeeded
    exact Console.headless_of_runsThrough (Console.exitCode_headless_eq_zero_iff.mp succeeded)
  · intro frames failed
    obtain ⟨k, within, j, fault, halts⟩ := Console.exists_haltsAt failed
    exact ⟨k, within, j, fault, halts, fun more later => Console.headless_of_haltsAt halts later⟩
  · intro frames more further failed
    obtain ⟨k, within, j, fault, halts⟩ := Console.exists_haltsAt (by rw [failed]; decide)
    rw [Console.headless_of_haltsAt halts within,
      Console.headless_of_haltsAt halts (Nat.lt_of_lt_of_le within further)]
  · intro frames fewer within succeeded
    rw [Console.exitCode_headless_eq_zero_iff] at succeeded ⊢
    exact succeeded.of_le within
  · intro frames pause within succeeded waits delay sound more later
    have through := (Console.exitCode_headless_eq_zero_iff.mp succeeded).of_le within
    have stalled : (console.machine.after (idleFrames pause)).IsStalled :=
      { waits := waits
        delay := congrArg Timer.mk delay
        sound := congrArg Timer.mk sound
        keypad := Machine.keypad_after_idleFrames rfl pause }
    exact Console.headless_of_isStalled through stalled later

/-- A rom that waits for a key and one that ends after an instruction. -/
theorem report_of_more_frames_awaitKey :
    let run (program : List UInt8) (frames : Nat) : Report :=
      (Request.run ⟨"KEY.ch8", frames, .standard, some 1⟩).report 0 (.ok program)
    ((run [0xF0, 0x0A] 1).exitCode = 0 ∧
        ∀ more ≥ 1, run [0xF0, 0x0A] more = run [0xF0, 0x0A] 1) ∧
      (run [0x60, 0x01] 1).exitCode = 1 ∧
        ∀ more ≥ 1, run [0x60, 0x01] more = run [0x60, 0x01] 1 := by
  intro run
  have waits : (run [0xF0, 0x0A] 1).exitCode = 0 := by decide +kernel
  have fails : (run [0x60, 0x01] 1).exitCode = 1 := by decide +kernel
  obtain ⟨-, -, -, -, -, waiting⟩ :=
    report_of_more_frames ⟨"KEY.ch8", 1, .standard, some 1⟩ 0 [0xF0, 0x0A]
  obtain ⟨-, -, -, failing, -, -⟩ :=
    report_of_more_frames ⟨"KEY.ch8", 1, .standard, some 1⟩ 0 [0x60, 0x01]
  refine ⟨⟨waits, ?_⟩, fails, fun more further => failing 1 more further fails⟩
  refine waiting 1 1 (Nat.le_refl 1) waits ?_ ?_ ?_
  all_goals decide +kernel

end CommandLine

end Chip8
