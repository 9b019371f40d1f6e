import Typewright.World.Load

/-!
# What a command can do

Beyond asking the outside, a command looks at paths, writes files, makes directories and prints, and
it writes and reads TOML with a package. This module holds these abilities (`Shell`) and what is
built from them: directories with all that lead to them, and texts in files.
-/

namespace Typewright

open Text

/-- What a path leads to. -/
inductive PathKind
  | file
  | directory
  deriving DecidableEq, Repr

/-- A package for TOML: the text of a table with the given entries, and the table that the bytes of a
file hold. -/
structure TomlCodec where
  write : Graph → Entries → Except Foreign String
  read : List UInt8 → Except Refusal Document

/-- The abilities of a command. A directory is made inside one that is there. -/
structure Shell (m : Type → Type) extends Outside m where
  kindOf : String → m (Option PathKind)
  writeFile : String → List UInt8 → m (Except FileFault Unit)
  makeDirectory : String → m (Except FileFault Unit)
  print : String → m Unit
  toml : TomlCodec

namespace Path

/-- A text without the slashes at its end. -/
def dropSlashes (path : List Char) : List Char :=
  (path.reverse.dropWhile (· == '/')).reverse

/-- The path up to its last slash and what follows that. The slashes themselves are dropped unless
there is nothing before them. -/
def splitLast (path : List Char) : List Char × List Char :=
  let name := (path.reverse.takeWhile (· != '/')).reverse
  let before := path.take (path.length - name.length)
  (if (dropSlashes before).isEmpty then before else dropSlashes before, name)

/-- The directory that a path leads into. -/
def directoryOf (path : String) : String :=
  String.ofList (splitLast path.toList).1

/-- The path of a name in a directory. -/
def join (directory name : String) : String :=
  if directory.endsWith "/" then directory ++ name else directory ++ "/" ++ name

end Path

namespace Shell

variable {m : Type → Type} [Monad m]

/-- Makes a directory that may be there already. -/
def ensureDirectory (shell : Shell m) (path : String) : m (Except FileFault Unit) := do
  match ← shell.makeDirectory path with
  | .ok () => return .ok ()
  | .error fault =>
    return if (← shell.kindOf path) = some .directory then .ok () else .error fault

/-- Makes a directory and those that lead to it. The fuel bounds their number. -/
def makeDirectories (shell : Shell m) : Nat → List Char → m (Except FileFault Unit)
  | 0, _ => return .error .missing
  | fuel + 1, path => do
    let (first, last) := Path.splitLast path
    let (outer, name) := if last.isEmpty then Path.splitLast first else (first, last)
    let here := String.ofList path
    if outer.isEmpty || name.isEmpty || (← shell.kindOf (String.ofList outer)).isSome then
      shell.ensureDirectory here
    else
      match ← makeDirectories shell fuel outer with
      | .ok () | .error .alreadyThere =>
        if name = ['.'] then return .ok () else shell.ensureDirectory here
      | .error fault => return .error fault

/-- Prints a line. -/
def printLine (shell : Shell m) (line : String) : m Unit :=
  shell.print (line ++ "\n")

/-- The outcome of an action on a path. -/
def checked (path : String) (outcome : Except FileFault Unit) : Loading m Unit :=
  match outcome with
  | .ok () => pure ()
  | .error fault => throw (.file fault path)

/-- Writes a text to a file. -/
def writeText (shell : Shell m) (path text : String) : Loading m Unit := do
  if path.toList.contains (Char.ofNat 0) then throw (.badValue .nullByte)
  let outcome : Except FileFault Unit ← ExceptT.lift (shell.writeFile path (Utf8.encode text))
  checked path outcome

/-- Writes a text to a file in a directory that is made if it is missing. -/
def writeTextInto (shell : Shell m) (path text : String) : Loading m Unit := do
  let directory := Path.directoryOf path
  if directory ≠ "" then
    let outcome : Except FileFault Unit ←
      ExceptT.lift (makeDirectories shell (directory.length + 1) directory.toList)
    checked directory outcome
  shell.writeText path text

end Shell

end Typewright
