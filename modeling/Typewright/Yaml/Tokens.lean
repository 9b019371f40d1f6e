import Typewright.Text.Utf8
import Typewright.Yaml.Scalars

/-!
# Tokens of a YAML text

A text falls into tokens: indicators, scalars, anchors, tags, and marks for the beginning and end of
block collections, which follow from the indentation. A mapping key without a question mark is known
as a key only when its colon is met. Until then its place among the tokens is kept as a pending key,
and the marks for it are put in at that place.

A pending key ends with its line and after 1024 characters. It is required if it stands at the
indentation of the block, and it is an error if a required key ends without a colon.
-/

namespace Typewright.Yaml

open Text

/-- Tokens. -/
inductive Token
  | streamEnd
  | version (major : Nat)
  | tagHandle (handle expansion : String)
  | directive
  | documentStart
  | documentEnd
  | blockSequence
  | blockMapping
  | blockEnd
  | sequenceStart
  | sequenceEnd
  | mappingStart
  | mappingEnd
  | blockEntry
  | flowEntry
  | key
  | value
  | alias (name : String)
  | anchor (name : String)
  | tag (handle : Option String) (suffix : String)
  | scalar (text : String) (plain : Bool)
  deriving DecidableEq, Repr

/-- A place that may turn out to begin a key: its place among the tokens, whether a colon is
required, and where it stands in the text. -/
structure PendingKey where
  place : Nat
  required : Bool
  offset : Nat
  line : Nat
  column : Nat
  deriving Repr

/-- A tokenizer: the place in the text, the tokens so far, the depth of flow collections, the
indentation of the block and of those around it, whether a key may begin here, and the pending keys
by depth. -/
structure Lexer where
  cursor : Cursor
  tokens : Array Token := #[]
  flow : Int := 0
  indent : Int := -1
  outer : List Int := []
  keyAllowed : Bool := true
  pending : List (Int × PendingKey) := []
  deriving Repr

namespace Lexer

/-- Adds a token. -/
def emit (l : Lexer) (token : Token) : Lexer :=
  { l with tokens := l.tokens.push token }

/-- Whether the place is inside a flow collection. -/
def inFlow (l : Lexer) : Bool :=
  l.flow != 0

/-- Goes to the next token over spaces, comments and line breaks. A line break in a block allows a
key. The fuel bounds the number of lines. -/
def toNext : Nat → Lexer → Lexer
  | 0, l => l
  | fuel + 1, l =>
    let c := l.cursor.skip (· == ' ')
    let c := if c.next == '#' then c.skip (!isBreakOrEnd ·) else c
    if isBreak c.next then
      toNext fuel { l with
        cursor := c.lineBreak.2
        keyAllowed := l.keyAllowed || !l.inFlow }
    else { l with cursor := c }

/-- Drops the pending keys that have ended. -/
def dropEnded (l : Lexer) : Except Fault Lexer :=
  let ended (key : PendingKey) : Bool :=
    key.line != l.cursor.line || 1024 < l.cursor.offset - key.offset
  if l.pending.any fun (_, key) => ended key && key.required then .error .invalid
  else .ok { l with pending := l.pending.filter fun (_, key) => !ended key }

/-- Drops the pending key at the depth. -/
def dropPending (l : Lexer) : Except Fault Lexer :=
  if l.pending.any fun (depth, key) => depth == l.flow && key.required then .error .invalid
  else .ok { l with pending := l.pending.filter fun (depth, _) => depth != l.flow }

/-- Notes that a key may begin here. -/
def notePending (l : Lexer) : Except Fault Lexer :=
  if l.keyAllowed then do
    let required := !l.inFlow && l.indent == l.cursor.column
    let l ← l.dropPending
    let key : PendingKey :=
      { place := l.tokens.size, required, offset := l.cursor.offset, line := l.cursor.line
        column := l.cursor.column }
    return { l with pending := (l.flow, key) :: l.pending }
  else .ok l

/-- Ends the blocks that are indented further than a column, innermost first. -/
def endBlocks (column : Int) : List Int → Int → Array Token → Array Token × Int × List Int
  | [], indent, tokens => (tokens, indent, [])
  | outer :: rest, indent, tokens =>
    if column < indent then endBlocks column rest outer (tokens.push .blockEnd)
    else (tokens, indent, outer :: rest)

/-- Ends the blocks that are indented further than a column. Inside flow collections indentation
does not count. -/
def unwind (l : Lexer) (column : Int) : Lexer :=
  if l.inFlow then l
  else
    let (tokens, indent, outer) := endBlocks column l.outer l.indent l.tokens
    { l with tokens, indent, outer }

/-- Begins a block at a column if it is indented further than the one around it; its mark is put in
at a place among the tokens. -/
def beginBlock (l : Lexer) (column place : Nat) (mark : Token) : Lexer :=
  if l.indent < column then
    { l with
      indent := column
      outer := l.indent :: l.outer
      tokens := l.tokens.insertIdxIfInBounds place mark }
  else l

/-- Begins a block here. -/
def beginBlockHere (l : Lexer) (mark : Token) : Lexer :=
  l.beginBlock l.cursor.column l.tokens.size mark

/-- Reads a number in a directive. -/
def directiveNumber (c : Cursor) : Except Fault (Nat × Cursor) :=
  let digits := c.run Char.isDigit
  if digits.isEmpty then .error .invalid
  else if Numeral.maxDigits < digits.length then
    .error (.value (.tooManyDigits digits.length))
  else .ok (digits.foldl (fun n d => 10 * n + (d.toNat - 48)) 0, c.skip Char.isDigit)

/-- Reads bytes that are percent-encoded. The fuel bounds their number. -/
def percentBytes : Nat → Cursor → Except Fault (List UInt8 × Cursor)
  | 0, c => .ok ([], c)
  | fuel + 1, c =>
    if c.next == '%' then
      if isHexDigit (c.peek 1) && isHexDigit (c.peek 2) then do
        let (more, rest) ← percentBytes fuel (c.advance 3)
        return (UInt8.ofNat (hexValue [c.peek 1, c.peek 2]) :: more, rest)
      else .error .invalid
    else .ok ([], c)

/-- Characters of a tag. -/
def isTagChar (c : Char) : Bool :=
  c.isAlphanum || "-;/?:@&=+$,_.!~*'()[]%".toList.contains c

/-- Reads the characters of a tag, possibly none. The fuel bounds their number. -/
def tagChars : Nat → Cursor → Except Fault (List Char × Cursor)
  | 0, c => .ok ([], c)
  | fuel + 1, c =>
    if c.next == '%' then do
      let (bytes, c) ← percentBytes (c.rest.length + 1) c
      match Utf8.decode bytes with
      | .error _ => throw .invalid
      | .ok text =>
        let (more, c) ← tagChars fuel c
        return (text.toList ++ more, c)
    else if isTagChar c.next && !c.rest.isEmpty then do
      let (more, rest) ← tagChars fuel c.forward
      return (c.next :: more, rest)
    else .ok ([], c)

/-- Reads the characters of a tag, at least one. -/
def tagText (c : Cursor) : Except Fault (String × Cursor) := do
  let (chars, rest) ← tagChars (c.rest.length + 1) c
  if rest.offset = c.offset then throw .invalid
  return (String.ofList chars, rest)

/-- Reads a handle: an exclamation mark, or a name between two of them. -/
def handleText (c : Cursor) : Except Fault (String × Cursor) :=
  if c.next != '!' then .error .invalid
  else if c.peek 1 == ' ' then .ok ("!", c.forward)
  else
    let name := c.forward.run isNameChar
    if c.peek (name.length + 1) == '!' then
      .ok (String.ofList ('!' :: name ++ ['!']), c.advance (name.length + 2))
    else .error .invalid

/-- Reads the directive after a percent sign, up to the end of its line. -/
def directiveToken (c : Cursor) : Except Fault (Token × Cursor) := do
  let name := c.run isNameChar
  let c := c.skip isNameChar
  if name.isEmpty || !isSpaceOrEnd c.next then throw .invalid
  if name = "YAML".toList then
    let (major, c) ← directiveNumber (c.skip (· == ' '))
    if c.next != '.' then throw .invalid
    let (_, c) ← directiveNumber c.forward
    if !isSpaceOrEnd c.next then throw .invalid
    return (.version major, ← restOfLine c)
  else if name = "TAG".toList then
    let (handle, c) ← handleText (c.skip (· == ' '))
    if c.next != ' ' then throw .invalid
    let (expansion, c) ← tagText (c.skip (· == ' '))
    if !isSpaceOrEnd c.next then throw .invalid
    return (.tagHandle handle expansion, ← restOfLine c)
  else return (.directive, ← restOfLine (c.skip (!isBreakOrEnd ·)))

/-- Reads the name of an anchor or an alias. -/
def anchorName (c : Cursor) : Except Fault (String × Cursor) :=
  let name := c.run isNameChar
  let after := c.skip isNameChar
  if name.isEmpty then .error .invalid
  else if isBlankOrEnd after.next || "?:,]%@\x7d".toList.contains after.next ||
      after.next.toNat == 0x60 then .ok (String.ofList name, after)
  else .error .invalid

/-- Whether a tag begins with a handle of its own: an exclamation mark before the next space. -/
def hasHandle (c : Cursor) : Bool :=
  (c.forward.run (!isSpaceOrEnd ·)).contains '!'

/-- Reads a tag. -/
def tagToken (c : Cursor) : Except Fault (Token × Cursor) := do
  let (token, c) ←
    if c.peek 1 == '<' then do
      let (text, c) ← tagText (c.advance 2)
      if c.next != '>' then throw .invalid
      pure (Token.tag none text, c.forward)
    else if isBlankOrEnd (c.peek 1) then pure (Token.tag none "!", c.forward)
    else if hasHandle c then do
      let (handle, c) ← handleText c
      let (text, c) ← tagText c
      pure (Token.tag (some handle) text, c)
    else do
      let (text, c) ← tagText c.forward
      pure (Token.tag (some "!") text, c)
  if isSpaceOrEnd c.next then return (token, c) else throw .invalid

/-- Ends the text. -/
def fetchEnd (l : Lexer) : Except Fault Lexer := do
  let l ← (l.unwind (-1)).dropPending
  return { l with pending := [], keyAllowed := false }.emit .streamEnd

/-- Reads a directive. -/
def fetchDirective (l : Lexer) : Except Fault Lexer := do
  let l ← (l.unwind (-1)).dropPending
  let (token, cursor) ← directiveToken l.cursor.forward
  return { l with cursor, keyAllowed := false }.emit token

/-- Reads a marker between documents. -/
def fetchMarker (l : Lexer) (token : Token) : Except Fault Lexer := do
  let l ← (l.unwind (-1)).dropPending
  return { l with cursor := l.cursor.advance 3, keyAllowed := false }.emit token

/-- Begins a flow collection. -/
def fetchFlowStart (l : Lexer) (token : Token) : Except Fault Lexer := do
  let l ← l.notePending
  return { l with flow := l.flow + 1, keyAllowed := true, cursor := l.cursor.forward }.emit token

/-- Ends a flow collection. -/
def fetchFlowEnd (l : Lexer) (token : Token) : Except Fault Lexer := do
  let l ← l.dropPending
  return { l with flow := l.flow - 1, keyAllowed := false, cursor := l.cursor.forward }.emit token

/-- Reads a comma. -/
def fetchFlowEntry (l : Lexer) : Except Fault Lexer := do
  let l ← l.dropPending
  return { l with keyAllowed := true, cursor := l.cursor.forward }.emit .flowEntry

/-- Reads the dash of an entry. -/
def fetchBlockEntry (l : Lexer) : Except Fault Lexer := do
  if !l.inFlow && !l.keyAllowed then throw .invalid
  let l := if l.inFlow then l else l.beginBlockHere .blockSequence
  let l ← { l with keyAllowed := true }.dropPending
  return { l with cursor := l.cursor.forward }.emit .blockEntry

/-- Reads the question mark of a key. -/
def fetchKey (l : Lexer) : Except Fault Lexer := do
  if !l.inFlow && !l.keyAllowed then throw .invalid
  let l := if l.inFlow then l else l.beginBlockHere .blockMapping
  let l ← { l with keyAllowed := !l.inFlow }.dropPending
  return { l with cursor := l.cursor.forward }.emit .key

/-- Reads the colon of a value. A pending key becomes a key. -/
def fetchValue (l : Lexer) : Except Fault Lexer := do
  match l.pending.find? (·.1 == l.flow) with
  | some (_, key) =>
    let l := { l with
      pending := l.pending.filter (·.1 != l.flow)
      tokens := l.tokens.insertIdxIfInBounds key.place .key }
    let l := if l.inFlow then l else l.beginBlock key.column key.place .blockMapping
    return { l with keyAllowed := false, cursor := l.cursor.forward }.emit .value
  | none =>
    if !l.inFlow && !l.keyAllowed then throw .invalid
    let l := if l.inFlow then l else l.beginBlockHere .blockMapping
    let l ← { l with keyAllowed := !l.inFlow }.dropPending
    return { l with cursor := l.cursor.forward }.emit .value

/-- Reads what may be a key: `read` gives a token and the place after it. -/
def fetchPiece (l : Lexer) (read : Cursor → Except Fault (Token × Cursor)) :
    Except Fault Lexer := do
  let l ← l.notePending
  let (token, cursor) ← read l.cursor
  return { l with keyAllowed := false, cursor }.emit token

/-- Reads a block of lines. -/
def fetchBlock (l : Lexer) (folded : Bool) : Except Fault Lexer := do
  let l ← { l with keyAllowed := true }.dropPending
  let (text, cursor) ← blockText folded l.indent l.cursor.forward
  return { l with cursor }.emit (.scalar (String.ofList text) false)

/-- Reads a plain scalar. After a line break a key may begin. -/
def fetchPlain (l : Lexer) : Except Fault Lexer := do
  let l ← l.notePending
  let (text, broken, cursor) :=
    plainText l.inFlow (l.indent + 1) (l.cursor.rest.length + 1) [] false l.cursor
  return { l with keyAllowed := broken, cursor }.emit (.scalar (String.ofList text) true)

/-- Whether a plain scalar begins here. -/
def atPlain (l : Lexer) : Bool :=
  let ch := l.cursor.next
  let special := isBlankOrEnd ch || "-?:,[]#&*!|>'%@\"\x7b\x7d".toList.contains ch ||
    ch.toNat == 0x60
  !special || (!isBlankOrEnd (l.cursor.peek 1) &&
    (ch == '-' || (!l.inFlow && (ch == '?' || ch == ':'))))

/-- Reads the next token. -/
def fetch (l : Lexer) : Except Fault Lexer := do
  let l ← (toNext (l.cursor.rest.length + 1) l).dropEnded
  let l := l.unwind l.cursor.column
  let c := l.cursor
  let ch := c.next
  let separated := isBlankOrEnd (c.peek 1)
  if c.rest.isEmpty then l.fetchEnd
  else if ch == '%' && c.column == 0 then l.fetchDirective
  else if c.column == 0 && ch == '-' && c.atMarker then l.fetchMarker .documentStart
  else if c.column == 0 && ch == '.' && c.atMarker then l.fetchMarker .documentEnd
  else if ch == '[' then l.fetchFlowStart .sequenceStart
  else if ch == '\x7b' then l.fetchFlowStart .mappingStart
  else if ch == ']' then l.fetchFlowEnd .sequenceEnd
  else if ch == '\x7d' then l.fetchFlowEnd .mappingEnd
  else if ch == ',' then l.fetchFlowEntry
  else if ch == '-' && separated then l.fetchBlockEntry
  else if ch == '?' && (l.inFlow || separated) then l.fetchKey
  else if ch == ':' && (l.inFlow || separated) then l.fetchValue
  else if ch == '*' then l.fetchPiece fun c => do
    let (name, c) ← anchorName c.forward
    return (.alias name, c)
  else if ch == '&' then l.fetchPiece fun c => do
    let (name, c) ← anchorName c.forward
    return (.anchor name, c)
  else if ch == '!' then l.fetchPiece tagToken
  else if ch == '|' && !l.inFlow then l.fetchBlock false
  else if ch == '>' && !l.inFlow then l.fetchBlock true
  else if ch == '\'' || ch == '"' then l.fetchPiece fun c => do
    let (text, after) ← quotedText (ch == '"') (c.rest.length + 1) c.forward
    return (.scalar (String.ofList text) false, after)
  else if l.atPlain then l.fetchPlain
  else throw .invalid

/-- What comes of the next token: reading ends with a fault or with the text, and goes on otherwise. -/
def goOn (rest : Lexer → Array Token × Option Fault) (l : Lexer) :
    Except Fault Lexer → Array Token × Option Fault
  | .error fault => (l.tokens, some fault)
  | .ok l => if l.tokens.back? == some .streamEnd then (l.tokens, none) else rest l

/-- Reads tokens up to the end of the text or a fault. The fuel bounds the number of steps. -/
def fetchAll : Nat → Lexer → Array Token × Option Fault
  | 0, l => (l.tokens, some .invalid)
  | fuel + 1, l => goOn (fetchAll fuel) l l.fetch

end Lexer

/-- The tokens of a text up to the fault that is in it, if there is one. -/
def tokens (text : String) : List Token × Option Fault :=
  let chars := text.toList
  if chars.all isAllowed then
    let start : Cursor := ⟨chars, 0, 0, 0⟩
    let start := if isOrderMark start.next then start.forward else start
    let (tokens, fault) := Lexer.fetchAll (chars.length + 2) { cursor := start }
    (tokens.toList, fault)
  else ([], some .invalid)

end Typewright.Yaml
