import Typewright.Text.Blank

/-!
# Braces in source text

A reader of source text that knows comments and string literals, and nothing else of the language.
It is a machine with one state per kind of place (`Place`): braces count only in plain code. A
string literal ends at its own quote and may run over lines, a line comment ends at a line feed, and
a block comment at its first `*/`.

`bracePair?` finds the first opening brace after an offset and the closing brace that brings the
depth back to zero. Closing braces before the first opening one count as well.
-/

namespace Typewright.Source

/-- Kinds of places in source text. `slash` is code just after a slash, and `star` a block comment
just after an asterisk. -/
inductive Place
  | code
  | slash
  | lineComment
  | blockComment
  | star
  | literal (mark : Char)
  | escape (mark : Char)
  deriving DecidableEq, Repr

namespace Place

/-- The place after a character of plain code. -/
def afterCode (c : Char) : Place :=
  if c = '/' then .slash
  else if c = '"' ∨ c = '\'' then .literal c
  else .code

/-- The place after a character. -/
def after (place : Place) (c : Char) : Place :=
  match place with
  | code => afterCode c
  | slash => if c = '/' then lineComment else if c = '*' then blockComment else afterCode c
  | lineComment => if c = '\n' then code else lineComment
  | blockComment => if c = '*' then star else blockComment
  | star => if c = '/' then code else if c = '*' then star else blockComment
  | literal mark =>
    if c = '\\' then escape mark else if c = mark then code else literal mark
  | escape mark => literal mark

/-- Whether a character at this place is code. -/
def isCode : Place → Bool
  | code | slash => true
  | _ => false

end Place

/-- The depth after a character of code. -/
def depthAfter (depth : Int) (c : Char) : Int :=
  if c = '\x7b' then depth + 1 else if c = '\x7d' then depth - 1 else depth

/-- Reads on at a place: the offset of the first opening brace if there was one, the depth, and the
offset of the next character. -/
def bracePairFrom? : Place → Option Nat → Int → Nat → List Char → Option (Nat × Nat)
  | _, _, _, _, [] => none
  | place, opening, depth, offset, c :: rest =>
    if place.isCode then
      let opening := if c = '\x7b' then opening.or (some offset) else opening
      let depth := depthAfter depth c
      match opening with
      | some first =>
        if c = '\x7d' ∧ depth = 0 then some (first, offset)
        else bracePairFrom? (place.after c) opening depth (offset + 1) rest
      | none => bracePairFrom? (place.after c) opening depth (offset + 1) rest
    else bracePairFrom? (place.after c) opening depth (offset + 1) rest

/-- The offsets of the first opening brace from an offset on and of the brace that closes it. -/
def bracePair? (text : List Char) (start : Nat) : Option (Nat × Nat) :=
  bracePairFrom? .code none 0 start (text.drop start)

end Typewright.Source
