import Typewright.Toml.Values

/-!
# Reading TOML

Reads a TOML text into a document graph, line by line: a line is the header of a table or of an
array of tables, an entry of the table that the last header names, or goes on with a literal. A
table that is only named as part of longer headers is implied, and may still get a header of its
own.
-/

namespace Typewright.Toml

open Text TableM

/-- The state between two lines: the root, the table that entries belong to, the names of implied
tables, and the literal that is open. -/
structure Reading where
  root : Value
  table : Value
  implied : List String := []
  pending : Option Pending := none

namespace Reading

/-! ## Headers -/

/-- Whether a name needs no quotes. -/
def isBareName (name : List Char) : Bool :=
  !name.isEmpty && name.all fun c => c.isAlphanum || c == '_' || c == '-'

/-- A quoted name that begins with the given text, and the parts of the header after it. Dots inside
the quotes belong to the name. -/
def quotedName : List Char → List (List Char) → Except Fault (List Char × List (List Char))
  | text, rest =>
    let name := trim text
    if name.length ≠ 1 ∧ name.head? = name.getLast? then .ok (Literal.inner name, rest)
    else match rest with
      | [] => .error .invalid
      | next :: rest => quotedName (text ++ '.' :: next) rest
termination_by _ rest => rest.length

/-- The names of a header from its parts between dots. The fuel bounds their number. -/
def names : Nat → List (List Char) → Except Fault (List String)
  | _, [] => .ok []
  | 0, _ => .error .invalid
  | fuel + 1, part :: rest => do
    let part := trim part
    if part.head? = some '"' ∨ part.head? = some '\'' then
      let (name, rest) ← quotedName part rest
      return String.ofList name :: (← names fuel rest)
    else if isBareName part then return String.ofList part :: (← names fuel rest)
    else throw .invalid

/-- Whether a header is one of an array of tables, and its names. The text after the first bracket
is given. -/
def header (text : List Char) : Except Fault (Bool × List String) := do
  let (array, body, closing) ← match text with
    | [] => throw .invalid
    | '[' :: rest => pure (true, rest, [']', ']'])
    | rest => pure (false, rest, [']'])
  let count := 1 + countQuoted closing body
  let pieces := splitFirst closing count body
  if pieces.length < count + 1 ∨ !(trim (pieces.getLastD [])).isEmpty then throw .invalid
  let parts := splitAtChar '.' (closing.intercalate pieces.dropLast)
  return (array, ← names parts.length parts)

/-- The last item of an array, and the last character of a text. -/
def lastOf (v : Value) : TableM Value := do
  match v, (← get).items? v with
  | _, some items =>
    match items.getLast? with
    | some item => return item
    | none => throw .outOfRange
  | .scalar (.str s), none =>
    match s.toList.getLast? with
    | some c => return .str (String.singleton c)
    | none => throw .outOfRange
  | _, none => throw .wrongKind

/-- Adds what a header names at its end: a table, or an array with a table. -/
def addNamed (array : Bool) (table : Value) (name : String) : TableM Unit := do
  let inner ← add (.mapping [])
  if array then put table name (← add (.sequence [inner]))
  else put table name inner

/-- Adds a table to an array. -/
def append (v : Value) : TableM Unit := do
  let g ← get
  match v, g.items? v with
  | .node id, some items => do
    let table ← add (.mapping [])
    modify (·.set id (.sequence (items ++ [table])))
  | _, _ => throw .noSuchPart

/-- Takes a step along a header from a value, to what stands there under a name; of an array it is
the last item that counts. Something of this name may only be there already at the end of the header
if it is implied, or an array that a table is added to. -/
def enter (array last : Bool) (name : String) (implied : List String) (v : Value) :
    TableM (Value × List String) := do
  if name = "" then throw .invalid
  let (v, implied) ← match (← get).entries? v with
    | some entries =>
      match entries.get? name with
      | none => do
        addNamed (array && last) v name
        pure (v, if last then implied else implied ++ [name])
      | some old => do
        if !last then pure (v, implied)
        else if implied.contains name then
          if array then throw .invalid else pure (v, implied.erase name)
        else if array then
          append old
          pure (v, implied)
        else throw .invalid
    | none => do
      let inner ← lastOf v
      if (← entry? inner name).isNone then addNamed (array && last) inner name
      pure (inner, implied)
  let reached := (← entry? v name).getD .null
  if array && !(← get).isMapping reached then return (← lastOf reached, implied)
  else return (reached, implied)

/-- Goes along the names of a header. -/
def enterAll (array : Bool) : List String → List String → Value → TableM (Value × List String)
  | [], implied, v => return (v, implied)
  | name :: rest, implied, v => do
    let (v, implied) ← enter array rest.isEmpty name implied v
    enterAll array rest implied v

/-! ## Lines -/

/-- Goes on with an open literal. It ends with three of its quotes, and in an array with a bracket.
-/
def proceed (s : Reading) (fuel : Nat) (pending : Pending) (line : List Char) : TableM Reading := do
  let text := pending.text ++ line
  let closed ← match text.head?, line.getLast? with
    | some '[', none => throw .outOfRange
    | some '[', some c => pure (c == ']')
    | some mark, _ => pure (2 < line.length && (line.reverse.take 3).all (· == mark))
    | none, _ => throw .outOfRange
  if closed then
    let (v, _) ← value fuel true text
    put s.table pending.key v
    return { s with pending := none }
  else
    let joined := Literal.endsOpen text
    let text := if joined then text.dropLast else text ++ ['\n']
    return { s with pending := some { pending with text, joined } }

/-- Reads a line. -/
def line (fuel : Nat) (s : Reading) (text : List Char) : TableM Reading := do
  match s.pending with
  | some pending =>
    let text := if pending.joined || !pending.text.contains '\n' then trim text else text
    if text.isEmpty && pending.joined then return s else s.proceed fuel pending text
  | none =>
    match trim text with
    | [] => return s
    | '[' :: rest =>
      let (array, names) ← header rest
      let (table, implied) ← enterAll array names s.implied s.root
      return { s with table, implied }
    | '\x7b' :: rest =>
      if rest.getLast? ≠ some '\x7d' then throw .invalid
      inlineEntries fuel s.table ('\x7b' :: rest)
      return s
    | text =>
      if text.contains '=' then return { s with pending := ← entry fuel s.table text }
      else return s

end Reading

/-- Reads a text as the table that it describes. -/
def read (text : String) : Except Fault Document := do
  let chars := text.toList
  let lines ← Layout.lines chars
  let (g, root) := Graph.empty.add (.mapping [])
  let steps := lines.foldlM (Reading.line (4 * chars.length + 8)) { root, table := root }
  let (_, g) ← steps.run g
  return ⟨g, root⟩

end Typewright.Toml
