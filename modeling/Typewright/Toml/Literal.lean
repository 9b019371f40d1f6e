import Typewright.Text.CodeTable
import Typewright.Text.Search
import Typewright.Toml.Layout

/-!
# Literals in a TOML text

A literal stands between single or double quotes, or between three of either. In double quotes a
backslash begins an escape. Escapes by code point are resolved before all others, so a backslash
that one of them gives begins an escape itself.
-/

namespace Typewright.Toml

open Text

namespace Literal

/-- The text without its first and last character. -/
def inner (text : List Char) : List Char :=
  (text.drop 1).dropLast

/-- The pieces of a text between the occurrences of a pattern. The fuel bounds their number. -/
def splitAtText (pattern : List Char) : Nat → List Char → List (List Char)
  | 0, text => [text]
  | fuel + 1, text =>
    match cut? pattern text with
    | some (before, after) => before :: splitAtText pattern fuel after
    | none => [text]

/-- Whether an odd number of backslashes ends a text. -/
def endsOpen (text : List Char) : Bool :=
  (text.reverse.takeWhile (· == '\\')).length % 2 == 1

/-- Whether text may follow as it does between the quotes after the first one: `closed` says that
the literal has ended, and `marks` counts empty pieces of a long literal. -/
def isClosed (long : Bool) : Bool → Nat → List (List Char) → Bool
  | _, _, [] => true
  | closed, marks, piece :: rest =>
    if piece.isEmpty then
      if long then isClosed long closed (marks + 1) rest else isClosed long true marks rest
    else if endsOpen piece then isClosed long closed marks rest
    else if closed then false
    else if !long || 1 < marks then isClosed long true marks rest
    else isClosed long closed 0 rest

/-- The characters that short escapes stand for. -/
def escapes : List (Char × Nat) :=
  [('0', 0), ('b', 8), ('f', 12), ('n', 10), ('r', 13), ('t', 9), ('"', 34)]

/-- Whether every escape is known. The pieces of the text after each backslash are given, and
`after` says that a backslash was just escaped. -/
def knowsEscapes : Bool → List (List Char) → Bool
  | _, [] => true
  | after, [] :: rest => knowsEscapes (!after) rest
  | after, (c :: _) :: rest =>
    (after || c == 'u' || c == 'U' || escapes.any (·.1 == c)) && knowsEscapes false rest

/-- Lower-case hexadecimal digits. -/
def isHex (c : Char) : Bool :=
  c.isDigit || ('a' ≤ c && c ≤ 'f')

/-- The character with a code point. -/
def charOfCode (code : Nat) : Except Fault Char :=
  if 0x7FFFFFFF < code then .error .tooLarge
  else if 0x10FFFF < code then .error .invalid
  else if 0xD800 ≤ code ∧ code < 0xE000 then .ok (Char.ofNat 0xFFFD)
  else .ok (Char.ofNat code)

/-- The character that the digits after an escape by code point stand for. -/
def escapedChar (digits : List Char) : Except Fault Char :=
  let ends := (digits.dropWhile isHex).reverse.dropWhile isHex
  match digits with
  | _ :: _ =>
    if !ends.isEmpty then .error .invalid
    else match digits with
      | ['d'] => .error .outOfRange
      | 'd' :: second :: _ =>
        if '0' ≤ second && second ≤ '7' then charOfCode (hexValue digits) else .error .invalid
      | _ => charOfCode (hexValue digits)
  | [] => .error .outOfRange

/-- Resolves escapes by code point. The text before is given, and the pieces after each mark; a mark
whose backslash is itself escaped stays. -/
def resolveCodes (mark : List Char) (width : Nat) : List Char → Bool → List (List Char) →
    Except Fault (List Char)
  | before, _, [] => .ok before
  | before, true, piece :: rest =>
    resolveCodes mark width (before ++ mark ++ piece) (endsOpen piece) rest
  | before, false, piece :: rest => do
    let digits := (piece.take width).map Char.toLower
    let c ← escapedChar digits
    resolveCodes mark width (before ++ c :: piece.drop width) false rest

/-- Resolves the escapes by code point of one form. -/
def resolveForm (mark : List Char) (width : Nat) (text : List Char) : Except Fault (List Char) :=
  match splitAtText mark text.length text with
  | before :: pieces => resolveCodes mark width before (endsOpen before) pieces
  | [] => .ok text

/-- Resolves short escapes. -/
def unescape : List Char → Except Fault (List Char)
  | [] => .ok []
  | ['\\'] => .ok ['\\']
  | '\\' :: c :: rest =>
    match escapes.find? (·.1 == c) with
    | some (_, code) => (unescape rest).map (Char.ofNat code :: ·)
    | none =>
      if c = '\\' then (unescape rest).map ('\\' :: ·)
      else if c = 'u' ∨ c = 'U' then (unescape rest).map (fun text => '\\' :: c :: text)
      else .error .invalid
  | c :: rest => (unescape rest).map (c :: ·)

/-- The text between the quotes, of which there are one or three. -/
def content (mark : Char) (text : List Char) : List Char :=
  let text :=
    if text[1]? = some mark ∧ (text.length < 3 ∨ text[2]? = some mark) then inner (inner text)
    else text
  inner text

/-- The text that a literal stands for; it begins with the given quote. -/
def value (mark : Char) (text : List Char) : Except Fault String := do
  let pieces := splitAtChar mark (text.drop 1)
  let (long, pieces) := match pieces with
    | [] :: [] :: rest => (true, rest)
    | pieces => (false, pieces)
  if !isClosed long false 0 pieces then throw .invalid
  if mark = '"' then
    if !knowsEscapes false ((splitAtChar '\\' text).drop 1) then throw .invalid
    let text ← resolveForm ['\\', 'u'] 4 text
    let text ← resolveForm ['\\', 'U'] 8 text
    return String.ofList (content mark (← unescape text))
  else return String.ofList (content mark text)

end Literal

end Typewright.Toml
