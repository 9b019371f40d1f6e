import Typewright.Text.Blank
import Typewright.Text.Word

/-!
# Lines of a TOML text

Before a TOML text is read line by line, one pass over its characters settles what a line is. It
blanks comments out, joins the lines of an array, keeps track of quotes, and checks that every entry
begins with a key and an equals sign. The line feed right after the opening of a long literal is
dropped.

The pass works on the characters in place. `Layout` is its state, and `Layout.lines` its result.
-/

namespace Typewright.Toml

open Text

/-- Why a text cannot be read. -/
inductive Fault
  /-- The text is not TOML. -/
  | invalid
  /-- A table is asked of a value that is none. -/
  | wrongKind
  /-- A table is added to a value that is no array. -/
  | noSuchPart
  /-- A character is asked for past the end of a text. -/
  | outOfRange
  /-- A code point is too large. -/
  | tooLarge
  /-- An entry under the empty key has a literal that goes on in the next line. -/
  | unnamedLiteral
  deriving DecidableEq, Repr

/-- Which part of a key comes next: no key is being read, characters of a bare key, or the equals
sign and what may stand before it. -/
inductive KeyPart
  | none
  | bare
  | after
  deriving DecidableEq, Repr

/-- The state of the pass: the characters, the number of open brackets, the open quote, whether a
literal of several lines is open, whether a header of a table or of an array of tables is open,
whether the line has only had blanks so far, and where in a key the place is. -/
structure Layout where
  chars : Array Char
  brackets : Int := 0
  quote : Option Char := none
  long : Bool := false
  header : Bool := false
  arrayHeader : Bool := false
  lineStart : Bool := true
  key : KeyPart := .none
  dotted : Bool := false

namespace Layout

/-- The character at an index; an index below zero counts from the end. -/
def charAt? (l : Layout) (index : Int) : Option Char :=
  if index < 0 then
    if index + l.chars.size < 0 then none else l.chars[(index + l.chars.size).toNat]?
  else l.chars[index.toNat]?

/-- The number of characters of a kind before an index, counted up to a limit. -/
def countBefore (l : Layout) (c : Char) (index : Int) : Nat → Nat
  | 0 => 0
  | limit + 1 =>
    if l.charAt? (index - 1) = some c then 1 + l.countBefore c (index - 1) limit else 0

/-- Whether an odd number of backslashes stands before an index. -/
def isEscaped (l : Layout) (index : Int) : Bool :=
  l.countBefore '\\' index l.chars.size % 2 == 1

/-- Replaces a character. -/
def put (l : Layout) (index : Int) (c : Char) : Layout :=
  let place := if index < 0 then index + l.chars.size else index
  { l with chars := l.chars.setIfInBounds place.toNat c }

/-- A dot after a key may lead to a further bare part. -/
def afterDot (l : Layout) (index : Nat) : Except Fault Layout :=
  match l.chars[index + 1]? with
  | none => .error .outOfRange
  | some next => .ok (if isBlank next || next == '.' then l else { l with key := .bare })

/-- The equals sign ends a key; nothing else may. -/
def endKey (l : Layout) (c : Char) : Except Fault Layout :=
  if c = '=' then .ok { l with key := .none, dotted := false } else .error .invalid

/-- Reads a character of a key. -/
def keyChar (l : Layout) (index : Nat) (c : Char) : Except Fault Layout :=
  if c = '\n' then .error .invalid
  else match l.quote, l.key with
    | some mark, _ =>
      let before := (l.chars.toList.take index).reverse.takeWhile (· == '\\')
      .ok (if c = mark ∧ before.length % 2 = 0 then { l with key := .after, quote := none } else l)
    | none, .bare =>
      if isBlank c then .ok { l with key := .after }
      else if c = '.' then .ok { l with dotted := true }
      else if isWord c || c == '-' then .ok l
      else if l.dotted && l.charAt? (index - 1) == some '.' && (c == '"' || c == '\'') then
        .ok { l with quote := some c }
      else l.endKey c
    | none, _ =>
      if isBlank c then (if l.dotted then l.afterDot index else .ok l)
      else if c = '.' then { l with dotted := true }.afterDot index
      else l.endKey c

/-- Turns a long literal on or off. -/
def toggleLong (l : Layout) (mark : Char) : Layout :=
  { l with long := !l.long, quote := if l.long then none else some mark }

/-- Turns a literal on or off. -/
def toggleQuote (l : Layout) (mark : Char) : Layout :=
  { l with quote := if l.quote.isSome then none else some mark }

/-- Reads a quote. Three of them in a row begin or end a long literal, and a double quote does not
count after an odd number of backslashes. -/
def quoteChar (l : Layout) (index : Nat) (c : Char) : Layout :=
  let before := l.countBefore c index 2
  if c = '\'' ∧ l.quote ≠ some '"' then
    if before = 2 then l.toggleLong c else l.toggleQuote c
  else if c = '"' ∧ l.quote ≠ some '\'' then
    let escaped := before ≠ 1 && l.isEscaped (index - before)
    if escaped then l
    else if before = 2 then l.toggleLong c
    else l.toggleQuote c
  else l

/-- Reads a bracket outside of literals. -/
def bracketChar (l : Layout) (index : Nat) (c : Char) : Layout :=
  if l.quote.isSome then l
  else if c = '[' ∧ !l.header ∧ !l.arrayHeader then
    if !l.lineStart then { l with brackets := l.brackets + 1 }
    else if l.chars[index + 1]? = some '[' then { l with arrayHeader := true }
    else { l with header := true }
  else if c = ']' then
    if l.header then { l with header := false }
    else if l.arrayHeader then
      { l with arrayHeader := l.charAt? (index - 1) != some ']' }
    else { l with brackets := l.brackets - 1 }
  else l

/-- Reads a line feed. Inside an array it becomes a space, and after two quotes in a long literal it
becomes the third. -/
def lineFeed (l : Layout) (index : Nat) : Except Fault Layout :=
  if l.quote.isSome ∨ l.long then
    if !l.long then .error .invalid
    else
      match l.charAt? (index - 1) with
      | some mark =>
        if (mark = '\'' ∨ mark = '"') ∧ l.charAt? ((index : Int) - 2) = some mark then
          let joined := l.put index mark
          .ok (if joined.charAt? ((index : Int) - 3) = some mark then
            joined.put ((index : Int) - 3) ' ' else joined)
        else .ok l
      | none => .ok l
  else if l.brackets ≠ 0 then .ok (l.put index ' ')
  else .ok { l with lineStart := true }

/-- Reads the first character of a line that is no blank. -/
def firstChar (l : Layout) (c : Char) : Except Fault Layout :=
  let l := { l with lineStart := false }
  if l.header ∨ l.arrayHeader then .ok l
  else if c = '=' then .error .invalid
  else .ok { l with key := .bare }

/-- Blanks a comment out; says whether it is the last thing in the text. -/
def dropComment (l : Layout) (index : Nat) : Layout × Bool :=
  let length := ((l.chars.toList.drop index).takeWhile (· != '\n')).length
  let blank := fun (chars : Array Char) (k : Nat) => chars.setIfInBounds (index + k) ' '
  let chars := (List.range length).foldl blank l.chars
  ({ l with chars }, index + length == l.chars.size)

/-- Reads the character at an index; says whether the pass ends there. -/
def step (l : Layout) (index : Nat) (c : Char) : Except Fault (Layout × Bool) :=
  if l.key ≠ .none then (l.keyChar index c).map (·, false)
  else
    let l := l.quoteChar index c
    if c = '#' ∧ l.quote.isNone ∧ !l.header ∧ !l.arrayHeader then .ok (l.dropComment index)
    else
      let l := l.bracketChar index c
      if c = '\n' then (l.lineFeed index).map (·, false)
      else if l.lineStart ∧ c ≠ ' ' ∧ c ≠ '\t' then (l.firstChar c).map (·, false)
      else .ok (l, false)

/-- Reads the characters from an index on; their number is given. -/
def run (l : Layout) (index : Nat) : Nat → Except Fault Layout
  | 0 => .ok l
  | count + 1 =>
    match l.chars[index]? with
    | none => .ok l
    | some c => do
      let (l, ended) ← l.step index c
      if ended then return l else l.run (index + 1) count

/-- The lines of a text. A key and a literal must end before the text does. -/
def lines (text : List Char) : Except Fault (List (List Char)) := do
  let l ← ({ chars := text.toArray } : Layout).run 0 text.length
  if l.key ≠ .none ∨ l.quote.isSome then throw .invalid
  return splitAtChar '\n' l.chars.toList

end Layout

end Typewright.Toml
