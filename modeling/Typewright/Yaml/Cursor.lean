import Typewright.Error

/-!
# Places in a YAML text

A `Cursor` stands before a character of a text and knows its offset, line and column. This module
holds the classes of characters that YAML tells apart, moving forward, and reading line breaks.
-/

namespace Typewright.Yaml

/-- Why a text cannot be read: it is no YAML, or one of its scalars denotes no value of its kind. -/
inductive Fault
  | invalid
  | value (fault : ValueFault)
  | wrongKind
  | word (text : String)
  | noMatch
  | noDigits
  | tooLarge
  deriving DecidableEq, Repr

/-- Characters that may stand in a text. -/
def isAllowed (c : Char) : Bool :=
  let code := c.toNat
  code == 9 || code == 10 || code == 13 || (0x20 ≤ code && code ≤ 0x7E) || code == 0x85 ||
    (0xA0 ≤ code && code ≤ 0xD7FF) || (0xE000 ≤ code && code ≤ 0xFFFD) || 0x10000 ≤ code

/-- The character that stands for the end of the text; it is not allowed in one. -/
def endMark : Char := Char.ofNat 0

/-- Line breaks. -/
def isBreak (c : Char) : Bool :=
  c == '\r' || c == '\n' || c.toNat == 0x85 || c.toNat == 0x2028 || c.toNat == 0x2029

/-- Line breaks and the end. -/
def isBreakOrEnd (c : Char) : Bool :=
  isBreak c || c == endMark

/-- Spaces, line breaks and the end. -/
def isSpaceOrEnd (c : Char) : Bool :=
  isBreakOrEnd c || c == ' '

/-- Spaces, tabs, line breaks and the end. -/
def isBlankOrEnd (c : Char) : Bool :=
  isSpaceOrEnd c || c == '\t'

/-- Spaces and tabs. -/
def isGap (c : Char) : Bool :=
  c == ' ' || c == '\t'

/-- Characters of names. -/
def isNameChar (c : Char) : Bool :=
  c.isAlphanum || c == '-' || c == '_'

/-- The byte order mark, which has no width. -/
def isOrderMark (c : Char) : Bool :=
  c.toNat == 0xFEFF

/-- A place before the rest of a text. -/
structure Cursor where
  rest : List Char
  offset : Nat := 0
  line : Nat := 0
  column : Nat := 0
  deriving Repr

namespace Cursor

/-- The character at a distance. -/
def peek (c : Cursor) (distance : Nat) : Char :=
  c.rest.getD distance endMark

/-- The next character. -/
def next (c : Cursor) : Char :=
  c.rest.headD endMark

/-- Whether the next characters are the given ones. -/
def startsWith (c : Cursor) (text : List Char) : Bool :=
  text.isPrefixOf c.rest

/-- The place after the next character. A carriage return and a line feed end one line together. -/
def forward (c : Cursor) : Cursor :=
  match c.rest with
  | [] => c
  | ch :: rest =>
    if isBreak ch && !(ch == '\r' && rest.head? == some '\n') then
      ⟨rest, c.offset + 1, c.line + 1, 0⟩
    else ⟨rest, c.offset + 1, c.line, if isOrderMark ch then c.column else c.column + 1⟩

/-- The place after several characters. -/
def advance (c : Cursor) : Nat → Cursor
  | 0 => c
  | n + 1 => c.forward.advance n

/-- The characters of a class in front. -/
def run (c : Cursor) (cls : Char → Bool) : List Char :=
  c.rest.takeWhile cls

/-- The place after the characters of a class. -/
def skip (c : Cursor) (cls : Char → Bool) : Cursor :=
  c.advance (c.run cls).length

/-- The place after the spaces in front, but not beyond a column. -/
def skipSpacesTo (c : Cursor) (column : Nat) : Cursor :=
  c.advance (min (c.run (· == ' ')).length (column - c.column))

/-- The line break in front as text, none if there is none, and the place after it. The two
separators of Unicode stay as they are, and every other break becomes a line feed. -/
def lineBreak (c : Cursor) : List Char × Cursor :=
  let ch := c.next
  if ch == '\r' || ch == '\n' || ch.toNat == 0x85 then
    (['\n'], if c.startsWith ['\r', '\n'] then c.advance 2 else c.forward)
  else if ch.toNat == 0x2028 || ch.toNat == 0x2029 then ([ch], c.forward)
  else ([], c)

/-- Whether a marker between documents stands in front. -/
def atMarker (c : Cursor) : Bool :=
  (c.startsWith ['-', '-', '-'] || c.startsWith ['.', '.', '.']) && isBlankOrEnd (c.peek 3)

end Cursor

end Typewright.Yaml
