import Chip8.Headless

/-! # The command line

One rom and three options, each at most once and in any order. An option takes its value from the
same argument or from the next one; an argument that starts with a dash is no value, the lone dash
apart. Behind a double dash everything is a path. The first argument that is wrong, or that asks for
help or the version, decides.
-/

namespace Chip8.CommandLine

/-- The options that take a value. -/
inductive Parameter where
  | frames
  | dialect
  | seed
deriving DecidableEq

/-- What a single argument is. -/
inductive Argument where
  /-- An option, with its value if that is attached. -/
  | option (parameter : Parameter) (value : Option String)
  | path (text : String)
  /-- The double dash. -/
  | separator
  | help
  | version
  | unknown

/-- An option by its long name; `value` is what follows an equals sign. -/
def longArgument (name : String) (value : Option String) : Argument :=
  match name, value with
  | "frames", _ => .option .frames value
  | "quirks", _ => .option .dialect value
  | "seed", _ => .option .seed value
  | "help", none => .help
  | "version", none => .version
  | _, _ => .unknown

/-- The value attached to a short option, if any; an equals sign in front of it is dropped. -/
def attachedValue : List Char → Option String
  | [] => none
  | '=' :: text => some (String.ofList text)
  | text => some (String.ofList text)

/-- What an argument is when nothing is expected in its place. -/
def argumentOf (text : String) : Argument :=
  match text.toList with
  | ['-', '-'] => .separator
  | '-' :: '-' :: rest =>
    let name := rest.takeWhile (· != '=')
    let value := match rest.dropWhile (· != '=') with
      | [] => none
      | _ :: value => some (String.ofList value)
    longArgument (String.ofList name) value
  | '-' :: 'f' :: rest => .option .frames (attachedValue rest)
  | '-' :: 'q' :: rest => .option .dialect (attachedValue rest)
  | '-' :: 'h' :: _ => .help
  | '-' :: 'V' :: _ => .version
  | '-' :: _ :: _ => .unknown
  | _ => .path text

/-- Whether an argument can be the value of an option in front of it. -/
def mayBeValue (text : String) : Bool :=
  match text.toList with
  | '-' :: _ :: _ => false
  | _ => true

/-- The number that some decimal digits stand for. -/
def numberOfDigits? (digits : List Char) : Option Nat :=
  if digits ≠ [] ∧ digits.all fun digit => '0' ≤ digit && digit ≤ '9' then
    some (digits.foldl (fun number digit => 10 * number + (digit.toNat - '0'.toNat)) 0)
  else none

/-- Numbers have to fit into 64 bits. -/
def numberLimit : Nat := 18446744073709551616

/-- A number, with a plus sign in front of it or without. -/
def number? (text : String) : Option Nat :=
  let digits := match text.toList with
    | '+' :: digits => digits
    | digits => digits
  (numberOfDigits? digits).filter (· < numberLimit)

/-- The dialect of a name. -/
def dialect? : String → Option Dialect
  | "default" => some .standard
  | "cosmac" => some .cosmac
  | "super-chip" => some .superChip
  | _ => none

/-- What has been given so far. -/
structure Given where
  rom : Option String
  frames : Option Nat
  dialect : Option Dialect
  seed : Option Nat

namespace Given

/-- Nothing yet. -/
def nothing : Given := ⟨none, none, none, none⟩

/-- Takes the value of an option that has not been given before. -/
def withOption? (given : Given) (parameter : Parameter) (text : String) : Option Given :=
  match parameter with
  | .frames =>
    if given.frames.isSome then none
    else (number? text).map fun frames => { given with frames := some frames }
  | .dialect =>
    if given.dialect.isSome then none
    else (dialect? text).map fun dialect => { given with dialect := some dialect }
  | .seed =>
    if given.seed.isSome then none
    else (number? text).map fun seed => { given with seed := some seed }

/-- Takes the path of the rom. -/
def withPath? (given : Given) (path : String) : Option Given :=
  if given.rom.isSome || path = "" then none else some { given with rom := some path }

end Given

/-- The frames of a run that is not told otherwise. -/
def defaultFrames : Nat := 60

/-- What the user asks for. -/
inductive Request where
  | run (options : RunOptions)
  | help
  | version
  /-- The arguments make no sense. -/
  | refused
deriving DecidableEq

/-- The request at the end of the arguments. -/
def Given.request (given : Given) : Request :=
  match given.rom with
  | none => .refused
  | some rom => .run
    { rom := rom
      frames := given.frames.getD defaultFrames
      dialect := given.dialect.getD .standard
      seed := given.seed.map UInt64.ofNat }

/-- Takes all that is left as paths. -/
def parsePaths : Given → List String → Request
  | given, [] => given.request
  | given, text :: arguments =>
    match given.withPath? text with
    | none => .refused
    | some given => parsePaths given arguments

/-- Takes the arguments one by one. -/
def parseFrom : Given → List String → Request
  | given, [] => given.request
  | given, text :: arguments =>
    match argumentOf text with
    | .help => .help
    | .version => .version
    | .unknown => .refused
    | .separator => parsePaths given arguments
    | .path path =>
      match given.withPath? path with
      | none => .refused
      | some given => parseFrom given arguments
    | .option parameter (some value) =>
      match given.withOption? parameter value with
      | none => .refused
      | some given => parseFrom given arguments
    | .option parameter none =>
      match arguments with
      | [] => .refused
      | value :: arguments =>
        if mayBeValue value then
          match given.withOption? parameter value with
          | none => .refused
          | some given => parseFrom given arguments
        else .refused

/-- The request that the arguments make. -/
def parse (arguments : List String) : Request := parseFrom .nothing arguments

/-- How the program is called. -/
def usage : String :=
  "Usage: chip8 <ROM> [-f|--frames <N>] [-q|--quirks <default|cosmac|super-chip>] [--seed <N>]\n"

namespace Request

/-- The rom that has to be read for a request. -/
def path? : Request → Option String
  | .run options => some options.rom
  | .help | .version | .refused => none

/-- The report on a request, given what is at its path. -/
def report (request : Request) (entropy : UInt64) (content : Except ReadError (List UInt8)) :
    Report :=
  match request with
  | .run options => options.report entropy content
  | .help => { exitCode := 0, output := usage, errors := "" }
  | .version => { exitCode := 0, output := "chip8 0.1.0\n", errors := "" }
  | .refused => { exitCode := 2, output := "", errors := usage }

end Request

end Chip8.CommandLine
