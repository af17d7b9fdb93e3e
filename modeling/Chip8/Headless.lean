import Chip8.Dump

/-! # Running without a display

A rom is run for a number of frames with a keypad that nobody touches, and the final state is
printed. A fault ends the run in the middle of its frame.
-/

namespace Chip8

/-- What a program leaves behind when it exits. -/
structure Report where
  exitCode : Nat
  output : String
  errors : String
deriving DecidableEq

/-- Up to `count` frames of `Machine.cyclesPerFrame` cycles, none after a fault. -/
def Machine.runFrames : (count : Nat) → Machine → Machine × Option Fault
  | 0, machine => (machine, none)
  | count + 1, machine =>
    let reaction := machine.frame (List.replicate Keypad.size false) cyclesPerFrame
    match reaction.result with
    | .ok _ => runFrames count reaction.machine
    | .error fault => (reaction.machine, some fault)

/-- The report on a console after up to `frames` frames. -/
def Console.headless (console : Console) (frames : Nat) : Report :=
  match console.machine.runFrames frames with
  | (machine, none) =>
    { exitCode := 0, output := { console with machine := machine }.dump ++ "\n", errors := "" }
  | (machine, some fault) =>
    { exitCode := 1
      output := { console with machine := machine }.dump ++ "\n"
      errors := fault.message ++ "\n" }

/-- What a run is asked to do. -/
structure RunOptions where
  /-- The path of the rom. -/
  rom : String
  frames : Nat
  dialect : Dialect
  seed : Option UInt64
deriving DecidableEq

namespace RunOptions

/-- The source that the seed selects; without one, `entropy` stands in. -/
def random (options : RunOptions) (entropy : UInt64) : Random :=
  .ofSeed (options.seed.getD entropy)

/-- The report on a run of the rom with the given content. -/
def report (options : RunOptions) (entropy : UInt64) (content : Except ReadError (List UInt8)) :
    Report :=
  match Rom.ofContent options.rom content with
  | .error error => { exitCode := 1, output := "", errors := error.message ++ "\n" }
  | .ok rom =>
    (Console.insert rom options.dialect (options.random entropy)).headless options.frames

end RunOptions

end Chip8
