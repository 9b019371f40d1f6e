import Typewright.CommandLine.Generate
import Typewright.Reference.Link
import Typewright.Toml.Codec

/-!
# The program

The command on the real system. There is no access to the web and no outside compiler from here:
addresses cannot be fetched, and the outside compiler is not found.
-/

open Typewright

/-- The number of a failure in the system's list. -/
def failureNumber : IO.Error → UInt32
  | .alreadyExists _ number _ | .inappropriateType _ number _ | .noFileOrDirectory _ number _
  | .invalidArgument _ number _ | .permissionDenied _ number _ | .resourceExhausted _ number _
  | .noSuchThing _ number _ => number
  | .otherError number _ => number
  | _ => 0

/-- A failure of the system as a fault. -/
def faultOf (error : IO.Error) : FileFault :=
  match failureNumber error with
  | 17 => .alreadyThere
  | 20 => .notDirectory
  | 21 => .isDirectory
  | 36 => .nameTooLong
  | 2 => .missing
  | number => .other number.toNat error.toString

/-- The outcome of an action on the system. -/
def outcomeOf {α : Type} (action : IO α) : IO (Except FileFault α) :=
  try return .ok (← action) catch error => return .error (faultOf error)

/-- Reads a file of the system. -/
def readSystemFile (path : String) : IO (Except FileFault (List UInt8)) :=
  outcomeOf do return (← IO.FS.readBinFile path).toList

/-- What a path of the system resolves to, by its text alone if it leads nowhere. -/
def resolveSystemPath (directory path : String) : IO String := do
  let full := Path.absolute directory path
  try return (← IO.FS.realPath full).toString catch _ => return full

/-- The system as a shell, with the packages at hand. -/
def systemShell (directory : String) : Shell IO where
  readFile := readSystemFile
  resolve := resolveSystemPath directory
  fetch _ := return .error .own
  readers := .atHand
  link := Reference.link
  kindOf path := do
    match ← readSystemFile path with
    | .ok _ => return some .file
    | .error .isDirectory => return some .directory
    | .error _ => return none
  writeFile path bytes := outcomeOf (IO.FS.writeBinFile path ⟨bytes.toArray⟩)
  makeDirectory path := outcomeOf (IO.FS.createDir path)
  print text := do
    let output ← IO.getStdout
    output.putStr text
    output.flush
  toml := Toml.codec

/-- Runs the command. A failure that is not expected goes to the error output. -/
def main (arguments : List String) : IO UInt32 := do
  let directory := (← IO.currentDir).toString
  match ← (CommandLine.command (systemShell directory) { path := none } arguments).run with
  | .ok ending => return ending.code.toUInt32
  | .error error =>
    IO.eprintln (error.kind ++ ": " ++ error.message)
    return 1
