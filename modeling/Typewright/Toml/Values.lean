import Typewright.Toml.Literal
import Typewright.Toml.Scalars

/-!
# Values and entries in a TOML text

The values that stand after an equals sign, and the entries `key = value` of tables. Tables and
arrays are containers of a graph, which grows as values are read. A key with dots leads through
tables, which are made where they are missing. A long literal may go on over further lines; an entry
that ends before its literal does is `pending`.
-/

namespace Typewright.Toml

open Text

/-- A step that may add containers. -/
abbrev TableM := StateT Graph (Except Fault)

/-- The kinds of values. The values of an array are of one kind. -/
inductive Kind
  | bool
  | string
  | array
  | table
  | time
  | date
  | float
  | int
  deriving DecidableEq, Repr

/-- A literal that goes on in the next line: the key of its entry, its text so far, and whether a
backslash ended the line. -/
structure Pending where
  key : String
  text : List Char
  joined : Bool
  deriving Repr

namespace TableM

/-- Adds a container. -/
def add (node : Node) : TableM Value := do
  let (g, v) := (← get).add node
  set g
  return v

/-- The value under a key of a table. Only a table has keys. -/
def entry? (table : Value) (key : String) : TableM (Option Value) := do
  match (← get).entries? table with
  | some entries => return entries.get? key
  | none => throw .wrongKind

/-- Sets the value under a key of a table. -/
def put (table : Value) (key : String) (v : Value) : TableM Unit := do
  let g ← get
  match table, g.entries? table with
  | .node id, some entries => set (g.set id (.mapping (entries.put (.str key) v)))
  | _, _ => throw .wrongKind

/-- The table under a key of a table, which is made if there is nothing. -/
def subtable (table : Value) (key : String) : TableM Value := do
  match ← entry? table key with
  | some v => return v
  | none =>
    let v ← add (.mapping [])
    put table key v
    return v

end TableM

open TableM Literal

/-- The pieces of a text by its quotes. They stand outside and inside of literals in turn, as far as
the first double quote; after it single quotes divide nothing. -/
def quotePieces (text : List Char) : List (List Char) :=
  match splitAtChar '"' text with
  | first :: rest =>
    if !rest.isEmpty && first.contains '\'' then
      let (singles, rest) := pair rest.length (splitAtChar '\'' first) rest
      singles ++ outside rest
    else outside (first :: rest)
  | [] => []
where
  /-- Double quotes inside of single quotes divide nothing. -/
  pair : Nat → List (List Char) → List (List Char) → List (List Char) × List (List Char)
    | fuel + 1, singles, piece :: rest =>
      if singles.length % 2 == 0 then
        let joined := singles.getLastD [] ++ '"' :: piece
        pair fuel (singles.dropLast ++ splitAtChar '\'' joined) rest
      else (singles, piece :: rest)
    | _, singles, rest => (singles, rest)
  /-- The first piece stands outside of double quotes. -/
  outside : List (List Char) → List (List Char)
    | [] => []
    | piece :: rest => splitAtChar '\'' piece ++ rest

/-- How many of the first separators of a text are inside of literals. -/
def countQuoted (separator : List Char) (text : List Char) : Nat :=
  count false 0 (quotePieces text)
where
  /-- Counts up to the first piece outside of literals that has a separator. -/
  count : Bool → Nat → List (List Char) → Nat
    | _, total, [] => total
    | quoted, total, piece :: rest =>
      let separators := (splitAtText separator piece.length piece).length - 1
      if !quoted && separators != 0 then total else count (!quoted) (total + separators) rest

/-- The pieces of a text between separators, of which only the given number count. -/
def splitFirst (separator : List Char) : Nat → List Char → List (List Char)
  | 0, text => [text]
  | count + 1, text =>
    match cut? separator text with
    | some (before, after) => before :: splitFirst separator count after
    | none => [text]

/-- Whether the text after an equals sign is taken as it is: it begins with a blank, a quote or a
bracket, or it is a truth value, a number, a date or a time. -/
def isValueText (text : List Char) : Bool :=
  match text with
  | [] => true
  | c :: _ =>
    [' ', '\t', '\'', '"', '[', '\x7b'].contains c ||
      ["true".toList, "false".toList].contains (trim text) ||
      (Binary64.ofText? text).isSome || (Scalars.date? text).isSome ||
      (Scalars.timeFields? text).isSome

/-- Splits an entry at the equals sign after its key. `count` equals signs belong to the key and its
end; more of them do as long as what follows is no value. Says whether the value keeps the rules for
digits. The fuel bounds the number of attempts. -/
def splitEntry (text : List Char) : Nat → Nat → Bool → List Char →
    Except Fault (List (List Char) × Bool)
  | 0, _, _, _ => .error .invalid
  | fuel + 1, count, strict, last =>
    if isValueText last then
      .ok ((splitFirst ['='] count text).dropLast ++ [last], strict)
    else
      let next := (splitFirst ['='] (count + 1) text).getLastD []
      if next = last then .error .invalid
      else splitEntry text fuel (count + 1) (strict && Scalars.isStrict next) next

/-- The key and the value of an entry as texts, and whether the value keeps the rules for digits. -/
def keyAndValue (text : List Char) : Except Fault (List Char × List Char × Bool) := do
  let count := 1 + countQuoted ['='] text
  let last := (splitFirst ['='] count text).getLastD []
  let plain := if last.head?.any Char.isDigit then last.filter (· != '_') else last
  let (pieces, strict) ← splitEntry text (text.length + 1) count (Scalars.isStrict last) plain
  return (trim (['='].intercalate pieces.dropLast), trim (pieces.getLastD []), strict)

/-- The parts of a key between its dots. -/
def keyParts (key : List Char) : List (List Char) :=
  if key.contains '"' || key.contains '\'' then
    let pieces := quotePieces key
    ((List.range pieces.length).zip pieces).flatMap fun (index, piece) =>
      if index % 2 == 1 then [piece] else (splitAtChar '.' piece).map trim
  else splitAtChar '.' key

/-- The table that a key leads to from a table, and the last part of the key. -/
def place (table : Value) (key : List Char) : TableM (Value × String) := do
  if key.contains '.' then
    let parts := ((keyParts key).reverse.dropWhile List.isEmpty).reverse
    match parts.getLast? with
    | none => throw .outOfRange
    | some last =>
      let table ← parts.dropLast.foldlM (fun table part =>
        if part.isEmpty then pure table else subtable table (String.ofList part)) table
      return (table, String.ofList (trim last))
  else
    match key.head?, key.getLast? with
    | some first, some last =>
      let bare := if first = last ∧ (first = '"' ∨ first = '\'') then inner key else key
      return (table, String.ofList bare)
    | _, _ => throw .outOfRange

/-- Whether the first item of an array is a literal. -/
def holdsLiterals (array : List Char) : Bool :=
  let first := (trim (inner array)).head?
  first == some '"' || first == some '\''

/-- The last item of an array that is open: what follows the last comma before a quote. -/
def lastItem : List (List Char) → Except Fault (List Char)
  | [] => .ok []
  | [item] => .ok item
  | item :: before :: rest =>
    match item.head? with
    | none => .error .outOfRange
    | some c =>
      if c = '"' ∨ c = '\'' then .ok item else lastItem ((before ++ ',' :: item) :: rest)
termination_by items => items.length

/-- The part of a value in which a long literal could be open. -/
def literalPart (text : List Char) : Except Fault (List Char) :=
  if text.head? = some '[' ∧ text.getLast? ≠ some ']' ∧ holdsLiterals text then
    lastItem (splitAtChar ',' (trim (text.drop 1))).reverse
  else .ok text

/-- Whether the long literal of a value goes on after the text. -/
def isOpen (text : List Char) : Except Fault Bool := do
  if text.length < 3 then return false
  match ← literalPart text with
  | [] => throw .outOfRange
  | mark :: rest =>
    if mark ≠ '"' ∧ mark ≠ '\'' then return false
    match rest with
    | [] => throw .outOfRange
    | second :: rest =>
      if second ≠ mark then return false
      match rest with
      | [] => throw .outOfRange
      | third :: _ =>
        let item := mark :: second :: rest
        return third = mark &&
          !(5 < item.length && (item.reverse.take 3).all (· == mark))

/-! ## Arrays -/

/-- Whether a text begins and ends with the same character, which is not escaped. -/
def isBounded (text : List Char) : Bool :=
  match text with
  | [] => true
  | first :: _ => text.getLast? == some first && !endsOpen (text.drop 1).dropLast

/-- Whether a piece of an array ends inside a literal. -/
def endsInside (piece : List Char) : Bool :=
  let text := trim piece
  !isBounded text ||
    match text, text.reverse with
    | a :: b :: c :: _, _ :: y :: z :: _ => a == b && b == c && y != a && z != a
    | _, _ => false

/-- Joins the pieces of an array that belong to one literal. The fuel bounds the number of joins. -/
def joinLiterals : Nat → List (List Char) → Except Fault (List (List Char))
  | 0, pieces => .ok pieces
  | _ + 1, [] => .ok []
  | _ + 1, [piece] => .ok [piece]
  | fuel + 1, piece :: next :: rest =>
    if endsInside piece then
      let joined := piece ++ ',' :: next
      if rest.isEmpty then
        if endsInside joined then .error .outOfRange else .ok [joined]
      else joinLiterals fuel (joined :: rest)
    else (joinLiterals fuel (next :: rest)).map (piece :: ·)

/-- The pieces of the inside of an array between the commas outside of inner arrays. -/
def splitNested : Int → List Char → List Char → List (List Char)
  | _, piece, [] => [piece.reverse]
  | depth, piece, c :: rest =>
    if c = '[' then splitNested (depth + 1) (c :: piece) rest
    else if c = ']' then splitNested (depth - 1) (c :: piece) rest
    else if c = ',' ∧ depth = 0 then piece.reverse :: splitNested depth [] rest
    else splitNested depth (c :: piece) rest

/-- The inline tables of an array, each with its braces. The place in the text, whether it is inside
a literal, the number of open braces, and the current table are given. Quotes count after an even
number of backslashes. -/
def inlineTables : Bool → Nat → List Char → List Char → List (List Char)
  | _, _, _, [] => []
  | inText, depth, table, c :: rest =>
    if depth = 0 then
      if c = '\x7b' then inlineTables false 1 ['\x7b'] rest else inlineTables false 0 [] rest
    else
      let flips := (c == '"' || c == '\'') &&
        !(inText && (table.takeWhile (· == '\\')).length % 2 == 1)
      let inText := inText != flips
      let depth := if !inText && c == '\x7b' then depth + 1 else depth
      if !inText && c == '\x7d' then
        if depth = 1 then (c :: table).reverse :: inlineTables false 0 [] rest
        else inlineTables inText (depth - 1) (c :: table) rest
      else inlineTables inText depth (c :: table) rest

/-- The items of an array as texts. -/
def itemTexts (array : List Char) : Except Fault (List (List Char)) :=
  let inside := inner array
  let beforeBracket := inside.takeWhile (· != '[')
  if inside.contains '[' && (trim beforeBracket).isEmpty then .ok (splitNested 0 [] inside)
  else
    let pieces :=
      if (trim inside).head? = some '\x7b' then inlineTables false 0 [] inside
      else splitAtChar ',' inside
    if holdsLiterals array then joinLiterals (2 * pieces.length + 1) pieces else .ok pieces

/-! ## Inline tables -/

/-- Whether the value in a piece of an inline table is complete. -/
def isComplete (value : List Char) : Except Fault Bool :=
  match value, value.getLast? with
  | first :: _, some last =>
    .ok ((first == last && (first == '"' || first == '\'')) ||
      "-0123456789".toList.contains first || value == "true".toList || value == "false".toList || (first == '[' && last == ']') ||
      (first == '\x7b' && last == '\x7d'))
  | _, _ => .error .outOfRange

/-- The entries of an inline table as texts. A comma inside a value divides nothing. -/
def entryTexts : List (List Char) → Except Fault (List (List Char))
  | [] => .ok []
  | piece :: rest =>
    match cut? ['='] piece with
    | none => .error .invalid
    | some (_, value) => do
      if ← isComplete (trim value) then return piece :: (← entryTexts rest)
      else match rest with
        | [] => throw .invalid
        | next :: rest => entryTexts ((piece ++ ',' :: next) :: rest)
termination_by pieces => pieces.length

/-- The kind of a scalar that is no literal. -/
def kindOf : Scalar → Kind
  | .date _ | .datetime _ => .date
  | .float _ => .float
  | _ => .int

/-- A value that is neither a container nor a literal nor a truth value. -/
def plainValue (strict : Bool) (text : List Char) : Except Fault (Value × Kind) :=
  match Scalars.timeFields? text with
  | some (hour, minute, second, microsecond) => do
    return (.scalar (← Scalars.time hour minute second microsecond), .time)
  | none =>
    match Scalars.date? text with
    | some date => .ok (.scalar date, .date)
    | none => do
      if !strict then throw .invalid
      let number ← Scalars.number text
      return (.scalar number, kindOf number)

/-- Refuses a key that is in use, and a key of what is no table. -/
def checkFree (table : Value) (key : String) : TableM Unit := do
  match (← get).entries? table with
  | none => throw .invalid
  | some entries => if entries.has key then throw .invalid

mutual

/-- The value that a text denotes, with its kind. The fuel bounds the depth. -/
def value : Nat → Bool → List Char → TableM (Value × Kind)
  | 0, _, _ => throw .invalid
  | fuel + 1, strict, text =>
    match text with
    | [] => throw .invalid
    | c :: _ => do
      if text = "true".toList then return (.bool true, .bool)
      else if text = "false".toList then return (.bool false, .bool)
      else if ["true".toList, "false".toList].contains (text.map Char.toLower) then throw .invalid
      else if c = '"' ∨ c = '\'' then return (.str (← Literal.value c text), .string)
      else if c = '[' then
        let items ← items fuel none (← itemTexts (trim text))
        return (← add (.sequence items), .array)
      else if c = '\x7b' then
        let table ← add (.mapping [])
        inlineEntries fuel table text
        return (table, .table)
      else plainValue strict text

/-- The items of an array, which are of one kind. Empty texts are left out. -/
def items : Nat → Option Kind → List (List Char) → TableM (List Value)
  | 0, _, _ => throw .invalid
  | _ + 1, _, [] => return []
  | fuel + 1, kind, text :: rest => do
    let text := trim text
    if text.isEmpty then items fuel kind rest
    else
      let (v, own) ← value fuel true text
      if kind.any (· != own) then throw .invalid
      return v :: (← items fuel (some own) rest)

/-- Puts the entries of an inline table into a table. -/
def inlineEntries : Nat → Value → List Char → TableM Unit
  | 0, _, _ => throw .invalid
  | fuel + 1, table, text => do
    let pieces := splitAtChar ',' (inner text)
    let pieces := match pieces with
      | [only] => if (trim only).isEmpty then [] else pieces
      | _ => pieces
    entries fuel table (← entryTexts pieces)

/-- Puts entries into a table, up to one with an open literal. -/
def entries : Nat → Value → List (List Char) → TableM Unit
  | 0, _, _ => throw .invalid
  | _ + 1, _, [] => return ()
  | fuel + 1, table, text :: rest => do
    let pending ← entry fuel table text
    if pending.isNone then entries fuel table rest

/-- Puts an entry into a table. A key occurs once. -/
def entry : Nat → Value → List Char → TableM (Option Pending)
  | 0, _, _ => throw .invalid
  | fuel + 1, table, text => do
    let (key, valueText, strict) ← keyAndValue text
    let (table, key) ← place table key
    if ← isOpen valueText then
      checkFree table key
      if key = "" then throw .unnamedLiteral
      let joined := endsOpen valueText
      return some ⟨key, if joined then valueText.dropLast else valueText ++ ['\n'], joined⟩
    else
      let (v, _) ← value fuel strict valueText
      checkFree table key
      put table key v
      return none

end

end Typewright.Toml
