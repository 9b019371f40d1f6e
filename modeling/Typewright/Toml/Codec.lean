import Typewright.Toml.Reader
import Typewright.Toml.Writer
import Typewright.World.Shell

/-!
# The package at hand for TOML

A file is read as UTF-8 with all line ends as line feeds. A text that is not TOML is refused as such;
some texts and some values to be written are refused in other ways.
-/

namespace Typewright.Toml

open Text

/-- A fault as an error. -/
def Fault.error : Fault → Foreign
  | .invalid | .outOfRange => { kind := "IndexError", message := "a position is out of range" }
  | .wrongKind => { kind := "TypeError", message := "a value of this kind cannot be used here" }
  | .noSuchPart => { kind := "AttributeError", message := "a value has no such part" }
  | .tooLarge => { kind := "OverflowError", message := "a number is too large" }
  | .unnamedLiteral =>
    { kind := "UnboundLocalError"
      message := "a literal under the empty key goes on in the next line" }

/-- A fault of a text as a refusal. -/
def Fault.refusal : Fault → Refusal
  | .invalid => .own
  | fault => .other fault.error

/-- The package at hand. -/
def codec : TomlCodec where
  write g entries := (write g entries).mapError Fault.error
  read bytes :=
    match Utf8.decode bytes with
    | .error failure =>
      .error (.other
        { kind := "UnicodeDecodeError", isBadValue := true, message := undecodableMessage failure })
    | .ok text => (read (String.ofList (Load.withLineFeeds text.toList))).mapError Fault.refusal

end Typewright.Toml
