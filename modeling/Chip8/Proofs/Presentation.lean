import Chip8.Proofs.Cycle
import Chip8.Proofs.Footprint
import Chip8.Proofs.Run
import Chip8.Proofs.Session

/-! # The display shows the screen

A display is told at most once in a frame what to show, and it is told nothing by anything else than
a frame. `Machine.picture_mirrors_screen` says that this is enough: after every frame of a session
the display shows the pixels of the screen. The reason is that the signal of a cycle tells the truth
about the pixels, and that no change of the screen comes after the signal that decides.
-/

namespace Chip8

/-- Whether an instruction is the clear or a draw. -/
def Instruction.touchesScreen : Instruction → Bool
  | .clear | .draw _ _ _ => true
  | _ => false

/-- What a display shows after it was told this. -/
def Presentation.picture : Presentation → Screen
  | .blank => .blank
  | .pixels screen => screen

/-- What a display is told, call by call. -/
def Reaction.calls (reaction : Reaction) : List Presentation := reaction.presentation.toList

/-- What a display shows after these calls. -/
def shownAfter (picture : Screen) (calls : List Presentation) : Screen :=
  calls.foldl (fun _ call => call.picture) picture

namespace Machine

/-- What a display shows after a session, if it showed `picture` before. -/
def pictureAfter (machine : Machine) (picture : Screen) : List Action → Screen
  | [] => picture
  | action :: session =>
    (machine.act action).machine.pictureAfter
      (shownAfter picture (machine.act action).calls) session

/-- Every frame of a session succeeds when its turn comes. -/
def FramesSucceed (machine : Machine) (session : List Action) : Prop :=
  ∀ earlier keys cycles later, session = earlier ++ .frame keys cycles :: later →
    ((machine.after earlier).frame keys cycles).result.isOk

private theorem framesSucceed_iff_throughout (machine : Machine) (session : List Action) :
    machine.FramesSucceed session ↔ machine.Throughout (fun machine action =>
      ∀ keys cycles, action = .frame keys cycles → (machine.frame keys cycles).result.isOk)
      session := by
  constructor
  · rintro succeed earlier action later split keys cycles rfl
    exact succeed earlier keys cycles later split
  · intro all earlier keys cycles later split
    exact all earlier (.frame keys cycles) later split keys cycles rfl

private theorem framesSucceed_cons_iff (machine : Machine) (action : Action)
    (session : List Action) :
    machine.FramesSucceed (action :: session) ↔
      (∀ keys cycles, action = .frame keys cycles → (machine.frame keys cycles).result.isOk) ∧
        (machine.act action).machine.FramesSucceed session := by
  rw [framesSucceed_iff_throughout, throughout_cons_iff, framesSucceed_iff_throughout]

variable {machine : Machine} {signal : Signal} {instruction : Instruction} {count : Nat}

private theorem touchesScreen_signalOf (machine : Machine) (instruction : Instruction) :
    (machine.signalOf instruction).touchesScreen = instruction.touchesScreen := by
  cases instruction with
  | awaitKey x =>
    unfold signalOf
    dsimp only
    split <;> rfl
  | _ => rfl

private theorem screen_perform (untouched : instruction.touchesScreen = false) :
    (machine.perform instruction).machine.screen = machine.screen := by
  apply (machine.perform_sameExcept instruction).screen
  cases instruction with
  | clear | draw => cases untouched
  | _ => simp [Instruction.touches]

/-- The signal of a cycle tells whether it cleared or drew, a cycle that did neither leaves the
pixels alone, and one that cleared leaves none of them lit. -/
theorem cycle_signal (succeeds : machine.cycle.result = .ok signal) :
    signal.touchesScreen = machine.upcoming?.any Instruction.touchesScreen ∧
      (signal.touchesScreen = false → machine.cycle.machine.screen = machine.screen) ∧
      (signal = .clear → machine.cycle.machine.screen = .blank) := by
  obtain ⟨x, waiting, ran⟩ | ⟨fault, -, -, ran⟩ | ⟨word, ready, fetched, unknown, ran⟩ |
    ⟨word, instruction, ready, fetched, decoded, ran⟩ := machine.cycle_cases
  · have none : machine.upcoming? = none := by simp [upcoming?, waiting]
    rw [ran] at succeeds ⊢
    obtain ⟨key, -, polled⟩ | ⟨-, polled⟩ := machine.poll_cases x
    all_goals
      rw [polled] at succeeds ⊢
      cases succeeds
      simp [none, Signal.touchesScreen, setRegister]
  · rw [ran] at succeeds
    cases succeeds
  · have none := (upcoming?_of_fetch ready fetched).trans unknown
    rw [ran] at succeeds ⊢
    cases succeeds
    simp [none, Signal.touchesScreen, Outcome.done, advanceCounter]
  · have next := (upcoming?_of_fetch ready fetched).trans decoded
    rw [ran] at succeeds ⊢
    have told := signal_of_perform succeeds
    refine ⟨?_, ?_, ?_⟩
    · rw [told, touchesScreen_signalOf, next]
      rfl
    · intro untouched
      rw [told, touchesScreen_signalOf] at untouched
      exact screen_perform untouched
    · rintro rfl
      cases instruction with
      | clear => rfl
      | awaitKey x =>
        unfold signalOf at told
        dsimp only at told
        split at told <;> cases told
      | _ => cases told

private theorem presentation_cons (signal : Signal) (signals : List Signal) (screen : Screen) :
    presentation (signal :: signals) screen =
      if signal.touchesScreen then
        some (if signal = .clear then .blank else .pixels screen)
      else presentation signals screen := by
  cases signal <;> rfl

private theorem isSome_presentation (signals : List Signal) (screen : Screen) :
    (presentation signals screen).isSome = signals.any Signal.touchesScreen := by
  induction signals with
  | nil => rfl
  | cons signal signals ih =>
    rw [presentation_cons, List.any_cons, ← ih]
    cases signal.touchesScreen <;> simp

/-- The last cycle that touched the screen decides rightly: a display that showed the pixels before
a run shows them after it. -/
theorem shownAfter_run (succeeds : (machine.run count).fault = none) :
    shownAfter machine.screen
        (presentation (machine.run count).signals (machine.run count).machine.screen).toList =
      (machine.run count).machine.screen := by
  induction count with
  | zero => rfl
  | succ count ih =>
    obtain ⟨earlier, signal, ended, machines, signals⟩ := run_succ succeeds
    obtain ⟨-, untouched, cleared⟩ := cycle_signal ended
    rw [machines, signals, presentation_cons]
    cases touched : signal.touchesScreen with
    | true =>
      by_cases clear : signal = .clear
      · simp [clear, shownAfter, Presentation.picture, cleared clear]
      · simp [clear, shownAfter, Presentation.picture]
    | false =>
      rw [untouched touched]
      exact ih earlier

/-- Some cycle of a run gave a signal of the screen exactly when one of them cleared or drew. -/
theorem any_touchesScreen_iff (succeeds : (machine.run count).fault = none) :
    (machine.run count).signals.any Signal.touchesScreen = true ↔
      ∃ k < count, (machine.after (List.replicate k .cycle)).upcoming?.any
        Instruction.touchesScreen = true := by
  induction count with
  | zero => simp [run, Run.start, Run.proceed]
  | succ count ih =>
    obtain ⟨earlier, signal, ended, -, signals⟩ := run_succ succeeds
    rw [machine_run earlier] at ended
    rw [signals, List.any_cons, Bool.or_eq_true, (cycle_signal ended).1, ih earlier]
    constructor
    · rintro (last | ⟨k, inRun, touched⟩)
      · exact ⟨count, by omega, last⟩
      · exact ⟨k, by omega, touched⟩
    · rintro ⟨k, inRun, touched⟩
      by_cases last : k = count
      · exact .inl (last ▸ touched)
      · exact .inr ⟨k, by omega, touched⟩

private theorem run_of_frame {keys : List Bool}
    (succeeds : (machine.frame keys count).result.isOk) :
    ((machine.setKeys keys).run count).fault = none ∧
      (machine.frame keys count).machine.screen =
        ((machine.setKeys keys).run count).machine.screen ∧
      (machine.frame keys count).presentation =
        presentation ((machine.setKeys keys).run count).signals
          ((machine.setKeys keys).run count).machine.screen := by
  cases failed : ((machine.setKeys keys).run count).fault with
  | none =>
    rw [frame_of_completed failed]
    exact ⟨rfl, rfl, rfl⟩
  | some fault =>
    rw [frame_of_fault failed] at succeeds
    cases succeeds

private theorem shownAfter_frame {keys : List Bool}
    (succeeds : (machine.frame keys count).result.isOk) :
    shownAfter machine.screen (machine.frame keys count).calls =
      (machine.frame keys count).machine.screen := by
  obtain ⟨unfailed, screen, told⟩ := run_of_frame succeeds
  have mirrored := shownAfter_run unfailed
  have keysAlone : (machine.setKeys keys).screen = machine.screen := by simp only [setKeys]
  rw [keysAlone] at mirrored
  rw [Reaction.calls, screen, told, mirrored]

/-- What is no cycle of its own keeps a display that shows the screen up to date. -/
theorem shownAfter_act {action : Action} (uncycled : action ≠ .cycle)
    (succeeds : ∀ keys cycles, action = .frame keys cycles →
      (machine.frame keys cycles).result.isOk) :
    shownAfter machine.screen (machine.act action).calls = (machine.act action).machine.screen := by
  cases between : action.runsCycles with
  | false =>
    have alone := machine.act_between_cycles between
    rw [Reaction.calls, alone.presentation, alone.screen]
    rfl
  | true =>
    cases action with
    | cycle => exact absurd rfl uncycled
    | frame keys cycles => exact shownAfter_frame (succeeds keys cycles rfl)
    | _ => cases between

/-- A display that shows the screen goes on showing it. -/
theorem pictureAfter_eq_screen (session : List Action) (uncycled : .cycle ∉ session)
    (succeed : machine.FramesSucceed session) :
    machine.pictureAfter machine.screen session = (machine.after session).screen := by
  induction session generalizing machine with
  | nil => rfl
  | cons action session ih =>
    have first := List.ne_of_not_mem_cons uncycled
    have rest := List.not_mem_of_not_mem_cons uncycled
    obtain ⟨firstSucceeds, restSucceeds⟩ := (framesSucceed_cons_iff ..).mp succeed
    rw [pictureAfter, after_cons, shownAfter_act (Ne.symm first) firstSucceeds]
    exact ih rest restSucceeds

/-- A display mirrors the screen. It is blank when the machine starts; from then on frames run, all
of them with success, and in between the machine is changed in any way that runs no cycle. Then the
display shows the screen after every frame. A frame makes at most one call, it makes one exactly
when one of its cycles cleared or drew, and it blanks the display only if no pixel is lit at its
end. -/
theorem picture_mirrors_screen (dialect : Dialect) (random : Random) (program : List UInt8)
    (session : List Action) (keys : List Bool) (cycles : Nat)
    (uncycled : .cycle ∉ session ++ [.frame keys cycles])
    (succeed : (boot dialect random program).FramesSucceed (session ++ [.frame keys cycles])) :
    let started := (boot dialect random program).after session
    let frame := started.frame keys cycles
    (boot dialect random program).pictureAfter .blank (session ++ [.frame keys cycles]) =
        frame.machine.screen ∧
      frame.calls.length ≤ 1 ∧
      (frame.calls ≠ [] ↔
        ∃ k < cycles, ((started.setKeys keys).after (List.replicate k .cycle)).upcoming?.any
          Instruction.touchesScreen = true) ∧
      (.blank ∈ frame.calls → frame.machine.screen = .blank) := by
  intro started frame
  have succeeds := succeed session keys cycles [] rfl
  obtain ⟨unfailed, screen, told⟩ := run_of_frame succeeds
  have mirrored := pictureAfter_eq_screen _ uncycled succeed
  rw [after_concat] at mirrored
  refine ⟨mirrored, ?_, ?_, ?_⟩
  · rw [Reaction.calls]
    cases frame.presentation <;> simp
  · rw [← any_touchesScreen_iff unfailed, ← isSome_presentation _ frame.machine.screen]
    change frame.presentation.toList ≠ [] ↔ _
    rw [screen, ← told]
    cases frame.presentation <;> simp
  · intro blanked
    have shown := shownAfter_frame succeeds
    have only : frame.calls = [.blank] := by
      rw [Reaction.calls, Option.mem_toList] at blanked
      rw [Reaction.calls, blanked, Option.toList]
    rw [only] at shown
    exact shown.symm

/-- A machine whose program draws the zero, clears the screen and then does nothing. -/
def drawAndClear : Machine := boot .standard (.ofSeed 0) [0xD0, 0x05, 0x00, 0xE0, 0x12, 0x04]

/-- A frame draws, a setter and a tick follow, and a second frame clears. -/
theorem picture_mirrors_screen_of_drawAndClear :
    let session := [.frame [true] 1, .setIndex 5, .tick]
    .cycle ∉ session ++ [.frame [] 2] ∧
      drawAndClear.FramesSucceed (session ++ [.frame [] 2]) ∧
      drawAndClear.pictureAfter .blank (session ++ [.frame [] 2]) =
        ((drawAndClear.after session).frame [] 2).machine.screen := by
  intro session
  have uncycled : .cycle ∉ session ++ [.frame [] 2] := by decide
  have drawing : (drawAndClear.frame [true] 1).result.isOk := by decide +kernel
  have succeed : drawAndClear.FramesSucceed (session ++ [.frame [] 2]) := by
    refine (framesSucceed_cons_iff ..).mpr ⟨?_, ?_⟩
    · intro keys cycles same
      cases same
      exact drawing
    refine (framesSucceed_cons_iff ..).mpr ⟨nofun, ?_⟩
    refine (framesSucceed_cons_iff ..).mpr ⟨nofun, ?_⟩
    refine (framesSucceed_cons_iff ..).mpr ⟨?_, ?_⟩
    · intro keys cycles same
      cases same
      decide +kernel
    · intro earlier keys cycles later split
      simp at split
  have mirrored := (picture_mirrors_screen _ _ _ session [] 2 uncycled succeed).1
  rw [← drawAndClear] at mirrored
  exact ⟨uncycled, succeed, mirrored⟩

end Machine

end Chip8
