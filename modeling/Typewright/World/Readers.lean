import Typewright.Json.Reader
import Typewright.World.Outside
import Typewright.Yaml.Reader

/-!
# The readers at hand

Readers for documents in JSON and in YAML. A text that is not of the language is refused as such; a
YAML text may also be refused for a scalar that has no value.
-/

namespace Typewright

/-- A fault of a YAML text as a refusal. -/
def Yaml.Fault.refusal : Yaml.Fault → Refusal
  | .invalid => .own
  | .value fault => .other { kind := "ValueError", isBadValue := true, message := fault.message }
  | .wrongKind =>
    .other { kind := "TypeError", message := "a value of this kind cannot be used here" }
  | .word text => .other { kind := "KeyError", message := Display.quoted text }
  | .noMatch => .other { kind := "AttributeError", message := "a value has no such part" }
  | .noDigits => .other { kind := "IndexError", message := "a position is out of range" }
  | .tooLarge => .other { kind := "OverflowError", message := "a number is too large" }

/-- The readers at hand. -/
def Readers.atHand : Readers where
  json text :=
    match Json.read? text with
    | some document => .ok document
    | none => .error .own
  yaml text := (Yaml.read text).mapError Yaml.Fault.refusal

end Typewright
