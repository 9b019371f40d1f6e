import Typewright.Document.Display
import Typewright.Text.Search
import Typewright.Toml.Literal

/-!
# Writing TOML

The TOML text of a table: first its entries, then its arrays of tables, then its tables, each under
a header. A text is written as it is displayed, but always between double quotes. TOML has no
escapes by two hexadecimal digits: such an escape is written without its backslash, and a text that
has only one, at its very beginning, is refused.
-/

namespace Typewright.Toml

open Text

namespace Write

/-- Whether the letter of an escape by two digits stays a letter after the given text; after a
backslash that is not escaped it begins an escape of four digits. The first character does not count
as escaped. -/
def staysLetter (before : List Char) : Bool :=
  before.getLast? != some '\\' ||
    (((before.drop 1).reverse.takeWhile (· == '\\')).length % 2 == 1)

/-- Joins the pieces of a text between its escapes by two digits. -/
def joinPieces : List Char → List (List Char) → Except Fault (List Char)
  | before, [] => .ok before
  | [], [_] => .error .outOfRange
  | [], before :: rest => joinPieces before rest
  | before, piece :: rest =>
    let before := replacePair '\\' '\\' ['\\'] before
    let joint := if staysLetter before then ['x'] else ['u', '0', '0']
    joinPieces (before ++ joint ++ piece) rest

/-- A text between double quotes. -/
def literal (text : String) : Except Fault String := do
  let shown := (Display.quoted text).toList
  let inside := Literal.inner shown
  let inside :=
    if shown.head? = some '\'' then
      (replacePair '\\' '\'' ['\''] inside).flatMap fun c => if c = '"' then ['\\', '"'] else [c]
    else inside
  match Literal.splitAtText ['\\', 'x'] inside.length inside with
  | before :: pieces =>
    let joined ← joinPieces before pieces
    return String.ofList ('"' :: joined ++ ['"'])
  | [] => return "\"\""

/-- A name in a header or before an equals sign. -/
def name (text : String) : Except Fault String :=
  let isBare := text != "" && text.toList.all fun c => c.isAlphanum || c == '_' || c == '-'
  if isBare then .ok text else literal text

/-- A floating-point number, without the zero in front of a power of one digit. -/
def floatText (x : Binary64) : String :=
  let chars := x.text.toList
  match cut? ['e', '+', '0'] chars, cut? ['e', '-', '0'] chars with
  | some (digits, power), _ => String.ofList (digits ++ 'e' :: '+' :: power)
  | none, some (digits, power) => String.ofList (digits ++ 'e' :: '-' :: power)
  | none, none => x.text

/-- A moment; universal time is written as the letter for it. -/
def momentText (t : DateTime) : String :=
  if t.offset = some 0 then DateTime.textWith "T" { t with offset := none } ++ "Z"
  else DateTime.textWith "T" t

/-- A scalar. -/
def scalarText : Scalar → Except Fault String
  | .str s => literal s
  | .bool true => .ok "true"
  | .bool false => .ok "false"
  | .int n => .ok (Numeral.ofInt n)
  | .float x => .ok (floatText x)
  | .date d => .ok d.text
  | .datetime t => .ok (momentText t)
  | .foreign _ text => .ok text
  | s => literal (Display.inner s)

/-- The items of an array between brackets. -/
def bracketed (items : List String) : String :=
  "[" ++ String.join (items.map fun item => " " ++ item ++ ",") ++ "]"

/-- A value on one line; of a table inside an array of arrays only the keys show. The fuel bounds
the depth. -/
def valueText (g : Graph) : Nat → Value → Except Fault String
  | _, .scalar s => scalarText s
  | 0, .node _ => .error .invalid
  | fuel + 1, .node id =>
    match g.get? id with
    | none => .error .invalid
    | some (.sequence items) => return bracketed (← items.mapM (valueText g fuel))
    | some (.mapping entries) => return bracketed (← entries.mapM fun (key, _) => scalarText key)

/-- Parts of a table: the text of its entries and arrays, and its tables by name. -/
structure Parts where
  lines : String := ""
  arrays : String := ""
  tables : List (String × Value) := []

/-- The text of the entries and arrays. -/
def Parts.text (parts : Parts) : String :=
  parts.lines ++ parts.arrays

/-- Whether a value is an array with a table in it. -/
def isTableArray (g : Graph) (v : Value) : Bool :=
  ((g.items? v).getD []).any g.isMapping

/-- What can stand in an array of tables: a table with its entries, or something empty. -/
def tableEntries (g : Graph) (v : Value) : Except Fault Entries :=
  match g.node? v, v with
  | some (.mapping entries), _ => .ok entries
  | some (.sequence []), _ | _, .scalar (.str "") => .ok []
  | _, _ => .error .wrongKind

mutual

/-- The parts of a table under a prefix of names. The fuel bounds the depth. -/
def parts (g : Graph) : Nat → String → Entries → Except Fault Parts
  | 0, _, _ => .error .invalid
  | fuel + 1, outer, entries =>
    entries.foldlM (fun found (key, v) => do
      let name ← name (Display.scalar key)
      if g.isMapping v then return { found with tables := found.tables ++ [(name, v)] }
      else if isTableArray g v then
        let full := outer ++ name
        let items ← ((g.items? v).getD []).mapM (arrayItem g fuel full)
        return { found with arrays := found.arrays ++ String.join items }
      else if v = .null then return found
      else
        let line := name ++ " = " ++ (← valueText g (g.size + 1) v) ++ "\n"
        return { found with lines := found.lines ++ line }) {}

/-- A table of an array under its header, and the tables inside it. -/
def arrayItem (g : Graph) : Nat → String → Value → Except Fault String
  | 0, _, _ => .error .invalid
  | fuel + 1, full, v => do
    let found ← parts g fuel (full ++ ".") (← tableEntries g v)
    let own := found.text
    let inner ← innerTables g fuel full found.tables
    let header := "[[" ++ full ++ "]]\n"
    if own.startsWith "[" then return header ++ "\n" ++ own ++ inner
    else return header ++ own ++ "\n" ++ inner

/-- The tables inside a table of an array, level by level. -/
def innerTables (g : Graph) : Nat → String → List (String × Value) → Except Fault String
  | 0, _, _ => .error .invalid
  | _ + 1, _, [] => .ok ""
  | fuel + 1, full, tables => do
    let levels ← tables.mapM fun (name, v) => do
      let found ← parts g fuel (full ++ "." ++ name ++ ".") (← tableEntries g v)
      let own := found.text
      let text := if own = "" then "" else "[" ++ full ++ "." ++ name ++ "]\n" ++ own
      return (text, found.tables.map fun (inner, v) => (name ++ "." ++ inner, v))
    let deeper ← innerTables g fuel full (levels.flatMap (·.2))
    return String.join (levels.map (·.1)) ++ deeper

end

/-- A text with an empty line at its end, unless it is empty. -/
def spaced (text : String) : String :=
  if text = "" ∨ text.endsWith "\n\n" then text else text ++ "\n"

/-- Adds tables under their headers, level by level. A table that only holds tables has no header.
-/
def addTables (g : Graph) : Nat → String → List (String × Value) → Except Fault String
  | 0, _, _ => .error .invalid
  | _ + 1, text, [] => .ok text
  | fuel + 1, text, tables => do
    let (text, deeper) ← tables.foldlM (fun (text, deeper) (name, v) => do
      let found ← parts g (3 * g.size + 3) (name ++ ".") (← tableEntries g v)
      let own := found.text
      let text :=
        if own = "" && !found.tables.isEmpty then text
        else spaced text ++ "[" ++ name ++ "]\n" ++ own
      return (text, deeper ++ found.tables.map fun (inner, v) => (name ++ "." ++ inner, v)))
      (text, [])
    addTables g fuel text deeper

end Write

/-- The text of a table with the given entries. -/
def write (g : Graph) (entries : Entries) : Except Fault String := do
  let found ← Write.parts g (3 * g.size + 3) "" entries
  Write.addTables g (g.size + 2) found.text found.tables

end Typewright.Toml
