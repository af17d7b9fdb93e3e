import Chip8.CommandLine

/-! # The program

Reads the rom that the command line names, prints the report on it and exits.
-/

namespace Chip8

/-- The content of a file; a failure that a report can name becomes part of the answer. -/
def readContent (path : String) : IO (Except ReadError (List UInt8)) := do
  try
    let content ← IO.FS.readBinFile path
    return .ok content.toList
  catch error =>
    match error with
    | .noFileOrDirectory _ _ _ => return .error .missing
    | .invalidArgument _ 36 _ => return .error .nameTooLong
    | .inappropriateType _ code _ =>
      return .error (if code == 20 then .notDirectory else .isDirectory)
    | _ => throw error

end Chip8

/-- Runs the program. -/
def main (arguments : List String) : IO UInt32 := do
  let request := Chip8.CommandLine.parse arguments
  let content ←
    match request.path? with
    | some path => Chip8.readContent path
    | none => pure (.error .missing)
  let entropy := (← IO.getRandomBytes 8).toList.foldl (fun high byte => 256 * high + byte.toNat) 0
  let report := request.report (UInt64.ofNat entropy) content
  IO.print report.output
  IO.eprint report.errors
  return UInt32.ofNat report.exitCode
