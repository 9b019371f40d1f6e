import Typewright.Document.Display
import Typewright.Text.Quoted

/-!
# Writing JSON

The JSON text of a document, in ASCII. On one line, items are separated by a comma and a space and a
key by a colon and a space; with an indent, each item stands on a line of its own. Keys that
are numbers, truth values or nothing are written as their words. What cannot be written is a fault: a
container inside itself, an integer with too many digits, and what JSON does not have, such as a
date, a moment or bytes.
-/

namespace Typewright.Json

open Text

/-- Why a value has no JSON text. -/
inductive WriteFault
  | circular
  | unsupported
  | tooLong
  deriving DecidableEq, Repr

/-- A floating-point number in JSON. -/
def floatText : Binary64 → String :=
  Binary64.textWith "Infinity" "NaN"

/-- An integer in JSON. -/
def intText (n : Int) : Except WriteFault String :=
  if Numeral.isTooLong n then .error .tooLong else .ok (Numeral.ofInt n)

/-- A scalar in JSON. -/
def scalarText : Scalar → Except WriteFault String
  | .null => .ok "null"
  | .bool true => .ok "true"
  | .bool false => .ok "false"
  | .int n => intText n
  | .float x => .ok (floatText x)
  | .str s => .ok (quote s)
  | _ => .error .unsupported

/-- The text that a key is written as. -/
def keyText : Scalar → Except WriteFault String
  | .str s => .ok s
  | .null => .ok "null"
  | .bool true => .ok "true"
  | .bool false => .ok "false"
  | .int n => intText n
  | .float x => .ok (floatText x)
  | _ => .error .unsupported

/-- How items are laid out: all on one line, or each on a line with the given indent per level. -/
inductive Layout
  | line
  | indented (width : Nat)

/-- The start of a new line at a level, nothing on one line. -/
def Layout.newline : Layout → Nat → String
  | .line, _ => ""
  | .indented width, level => "\n" ++ String.ofList (List.replicate (width * level) ' ')

/-- What separates two items at a level. -/
def Layout.separator : Layout → Nat → String
  | .line, _ => ", "
  | layout, level => "," ++ layout.newline level

/-- Items between brackets. -/
def bracketed (layout : Layout) (level : Nat) (opening closing : String)
    (items : List String) : String :=
  if items.isEmpty then opening ++ closing
  else opening ++ layout.newline (level + 1) ++ (layout.separator (level + 1)).intercalate items ++
    layout.newline level ++ closing

/-- The JSON text of a value at a level. The containers around it are given; the fuel bounds the
depth. -/
def textOf (g : Graph) (layout : Layout) : Nat → List Nat → Value → Except WriteFault String
  | _, _, .scalar s => scalarText s
  | 0, _, .node _ => .error .circular
  | fuel + 1, around, .node id =>
    if around.contains id then .error .circular
    else match g.get? id with
      | none => .error .unsupported
      | some (.mapping entries) => do
        let items ← entries.mapM fun (key, value) => do
          let key ← keyText key
          let text ← textOf g layout fuel (id :: around) value
          return quote key ++ ": " ++ text
        return bracketed layout around.length "\x7b" "\x7d" items
      | some (.sequence items) => do
        let items ← items.mapM (textOf g layout fuel (id :: around))
        return bracketed layout around.length "[" "]" items

/-- The JSON text of a value. Containers nest no deeper than there are containers. -/
def write (g : Graph) (layout : Layout) (v : Value) : Except WriteFault String :=
  textOf g layout (g.size + 1) [] v

end Typewright.Json
