import Typewright.Document.Graph
import Typewright.Number.Shortest
import Typewright.Text.Printable
import Typewright.Text.Quoted

/-!
# Displayed values

The text of a value as it shows in messages, arguments and literal type expressions: a text shows as
itself, everything else in a notation for data. Within containers texts are quoted, with single
quotes unless only double quotes avoid escapes. A container inside itself shows as three dots.
-/

namespace Typewright.Display

open Text

/-- An escape of two, four or eight hexadecimal digits, whichever suffices. -/
def escapeCode (code : Nat) : List Char :=
  if code < 0x100 then '\\' :: 'x' :: hexDigits 2 code
  else if code < 0x10000 then '\\' :: 'u' :: hexDigits 4 code
  else '\\' :: 'U' :: hexDigits 8 code

/-- A character between the given quotes. -/
def quotedChar (mark c : Char) : List Char :=
  if c = mark ∨ c = '\\' then ['\\', c]
  else if c = '\n' then ['\\', 'n']
  else if c = '\r' then ['\\', 'r']
  else if c = '\t' then ['\\', 't']
  else if isPrintable c then [c]
  else escapeCode c.toNat

/-- The quotes for a text: single ones, unless it has single and no double quotes. -/
def markFor (text : List Char) : Char :=
  if text.contains '\'' && !text.contains '"' then '"' else '\''

/-- A text in quotes. -/
def quoted (text : String) : String :=
  let chars := text.toList
  let mark := markFor chars
  String.ofList (mark :: chars.flatMap (quotedChar mark) ++ [mark])

/-- Bytes in quotes: ASCII as itself and all else by number. -/
def quotedBytes (bytes : List UInt8) : String :=
  let chars := bytes.map (fun b => Char.ofNat b.toNat)
  let mark := markFor chars
  let shown (c : Char) : List Char :=
    if c.toNat < 128 then quotedChar mark c else escapeCode c.toNat
  String.ofList ('b' :: mark :: chars.flatMap shown ++ [mark])

/-- A distance from universal time. -/
def zoneText (offset : Int) : String :=
  if offset = 0 then "datetime.timezone.utc"
  else "datetime.timezone(" ++ Calendar.spanText offset ++ ")"

/-- A moment as a list of its fields; a time of day ends at the last field that is not zero. -/
def momentText (t : DateTime) : String :=
  let fields := [t.date.year, t.date.month, t.date.day, t.hour, t.minute] ++
    (if t.second = 0 ∧ t.microsecond = 0 then [] else [t.second]) ++
    (if t.microsecond = 0 then [] else [t.microsecond])
  "datetime.datetime(" ++ ", ".intercalate (fields.map Numeral.decimal) ++
    ((t.offset.map (fun o => ", tzinfo=" ++ zoneText o)).getD "") ++ ")"

/-- A scalar inside a container. -/
def inner : Scalar → String
  | .null => "None"
  | .bool true => "True"
  | .bool false => "False"
  | .int n => Numeral.ofInt n
  | .float x => x.text
  | .str s => quoted s
  | .date d =>
    "datetime.date(" ++ ", ".intercalate ([d.year, d.month, d.day].map Numeral.decimal) ++ ")"
  | .datetime t => momentText t
  | .bytes bs => quotedBytes bs
  | .foreign _ text => text

/-- A scalar standing alone. -/
def scalar : Scalar → String
  | .str s => s
  | .date d => d.text
  | .datetime t => t.text
  | s => inner s

/-- A way of putting together what is made of the scalars in a value. A container inside itself is
not gone into again. -/
structure Fold (α : Type) where
  scalar : Scalar → α
  missing : α
  mappingAgain : α
  sequenceAgain : α
  mapping : List (Scalar × α) → α
  sequence : List α → α

/-- What is made of a value inside a container. The containers around it are given; the fuel bounds
the depth. -/
def Fold.within {α : Type} (fold : Fold α) (g : Graph) : Nat → List Nat → Value → α
  | _, _, .scalar s => fold.scalar s
  | 0, _, .node _ => fold.missing
  | fuel + 1, around, .node id =>
    match g.get? id with
    | none => fold.missing
    | some (.mapping entries) =>
      if around.contains id then fold.mappingAgain
      else fold.mapping (entries.map fun (key, value) =>
        (key, within fold g fuel (id :: around) value))
    | some (.sequence items) =>
      if around.contains id then fold.sequenceAgain
      else fold.sequence (items.map (within fold g fuel (id :: around)))

/-- What is made of a value. Containers nest no deeper than there are containers. -/
def Fold.value {α : Type} (fold : Fold α) (g : Graph) (v : Value) : α :=
  fold.within g (g.size + 1) [] v

/-- The text that is made of the texts of scalars inside. -/
def texts : Fold String where
  scalar := inner
  missing := "..."
  mappingAgain := "\x7b...\x7d"
  sequenceAgain := "[...]"
  mapping entries :=
    "\x7b" ++ ", ".intercalate (entries.map fun (key, text) => inner key ++ ": " ++ text) ++ "\x7d"
  sequence items := "[" ++ ", ".intercalate items ++ "]"

/-- A value standing alone. -/
def value (g : Graph) : Value → String
  | .scalar s => scalar s
  | v => texts.value g v

/-- Whether there are integers with too many digits among the scalars. -/
def longIntegers : Fold Bool where
  scalar := Scalar.isLongInteger
  missing := false
  mappingAgain := false
  sequenceAgain := false
  mapping entries := entries.any fun (key, long) => key.isLongInteger || long
  sequence items := items.any id

/-- Whether an integer that shows in a value has too many digits. -/
def hasLongInteger (g : Graph) (v : Value) : Bool :=
  longIntegers.value g v

end Typewright.Display
