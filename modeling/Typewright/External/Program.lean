import Typewright.Compile.Whole
import Typewright.Text.Blank

/-!
# The outside compiler

Schemas can also be compiled by a program outside: the schema goes to it as JSON on its input, the
options as arguments, and the text comes back on its output. The program is given by how it would
behave (`Program`): where it is found, with which arguments the system refuses to start it, and how
it ends.
-/

namespace Typewright.External

open Text

/-- A program: where it was found, if it was, the error of a start with the given words, if there is
one, the code that it exits with, and the bytes that it writes. -/
structure Program where
  path : Option String
  startError? : List String → Option Foreign := fun _ => none
  exitCode : Int := 0
  output : List UInt8 := []
  complaint : List UInt8 := []

/-- The command of the outside compiler. -/
def defaultCommand : List String := ["npx", "--yes", "json-schema-to-typescript"]

/-- The arguments for options: a flag for each truth value, a name and a text for any other. -/
def arguments (g : Graph) (options : Entries) : List String :=
  options.flatMap fun (key, v) =>
    let name := Display.scalar key
    match v with
    | .scalar (.bool true) => ["--" ++ name]
    | .scalar (.bool false) => ["--no-" ++ name]
    | _ => ["--" ++ name, Display.value g v]

/-- Whether an integer that shows in the arguments for options has too many digits to be shown. -/
def hasLongInteger (g : Graph) (options : Entries) : Bool :=
  options.any fun (key, v) => key.isLongInteger || Display.hasLongInteger g v

/-- The refusal of a schema that cannot be written. A value that JSON does not have is not expected
here. -/
def writeError : Json.WriteFault → Error
  | .circular => .compiler (.unwritable .circular)
  | .tooLong => .compiler (.unwritable .tooLong)
  | .unsupported => .wrongKind

/-- A run of the program: its arguments, the text on its input and the text that came back. -/
structure Run where
  arguments : List String
  input : String
  output : String
  deriving Repr

/-- Compiles a schema with the program that a command names by its first word. The options may come
from another graph than the schema. -/
def compile (program : Program) (command : List String) (g : Graph) (schema : Value)
    (optionGraph : Graph) (options : Entries) : Except Error Run :=
  match command, program.path with
  | [], _ => .error .outOfRange
  | name :: _, none => .error (.compiler (.notFound name))
  | _ :: words, some path =>
    if hasLongInteger optionGraph options then .error (.badValue .tooLong)
    else
      let words := path :: words ++ arguments optionGraph options
      match Json.write g .line schema with
      | .error fault => .error (writeError fault)
      | .ok input =>
        match program.startError? words with
        | some error => .error (.foreign error)
        | none =>
          if program.exitCode ≠ 0 then
            let complaint := String.ofList (trim (Utf8.decodeLossy program.complaint).toList)
            .error (.compiler (.exited program.exitCode complaint))
          else
            match Utf8.decode program.output with
            | .error failure => .error (.undecodable failure)
            | .ok output => .ok ⟨words, input, output⟩

end Typewright.External
