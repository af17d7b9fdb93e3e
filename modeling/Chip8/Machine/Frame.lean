import Chip8.Machine.Run

/-! # Frames

A rendered frame copies the keys into the machine, runs its cycles and ticks the timers once. The
last cycle that touched the screen decides what the display is told: to blank, or to show the
pixels. A fault ends the frame before the tick, and then the display is told nothing.
-/

namespace Chip8

/-- What a display is told at the end of a frame. -/
inductive Presentation where
  | blank
  | pixels (screen : Screen)
deriving DecidableEq

/-- What a driver of the machine gets to see of a frame or of another action. -/
structure Reaction extends Outcome where
  presentation : Option Presentation

/-- A reaction with nothing for the display. -/
def Outcome.unseen (outcome : Outcome) : Reaction := { outcome with presentation := none }

/-- Whether a cycle touched the screen. -/
def Signal.touchesScreen : Signal → Bool
  | .draw | .clear => true
  | .quiet | .wait => false

/-- What the display is told about a screen after these signals, the latest first. -/
def presentation (signals : List Signal) (screen : Screen) : Option Presentation :=
  match signals.find? Signal.touchesScreen with
  | none => none
  | some .clear => some .blank
  | some _ => some (.pixels screen)

/-- Runs one frame with the given keys. -/
def Machine.frame (machine : Machine) (keys : List Bool) (cycles : Nat) : Reaction :=
  let run := (machine.setKeys keys).run cycles
  let events := Keypad.snapshotWarnings keys ++ run.events
  match run.fault with
  | some fault =>
    { result := .error fault, machine := run.machine, events := events, presentation := none }
  | none =>
    { result := .ok run.lastSignal
      machine := run.machine.tick
      events := events
      presentation := presentation run.signals run.machine.screen }

end Chip8
