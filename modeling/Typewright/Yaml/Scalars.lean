import Typewright.Text.CodeTable
import Typewright.Yaml.Cursor

/-!
# Scalars in a YAML text

Reading the three forms in which a scalar can be written: between quotes, plainly, and as a block of
lines. In the first two a line break and the spaces around it become a space, and further breaks are
kept. A block keeps its lines or folds them, and its last line breaks are kept, cut to one, or
dropped.
-/

namespace Typewright.Yaml

open Text

/-- Line breaks with gaps before them. A marker between documents is not allowed after a break. The
fuel bounds the number of breaks. -/
def quotedBreaks : Nat → Cursor → Except Fault (List Char × Cursor)
  | 0, _ => .error .invalid
  | fuel + 1, c => do
    if c.atMarker then throw .invalid
    let c := c.skip isGap
    if isBreak c.next then
      let (text, c) := c.lineBreak
      let (more, c) ← quotedBreaks fuel c
      return (text ++ more, c)
    else return ([], c)

/-- A line break and what follows it up to the next text, folded: a single line feed becomes a
space. -/
def quotedFold (fuel : Nat) (c : Cursor) : Except Fault (List Char × Cursor) := do
  let (text, c) := c.lineBreak
  let (breaks, c) ← quotedBreaks fuel c
  if text ≠ ['\n'] then return (text ++ breaks, c)
  else if breaks.isEmpty then return ([' '], c)
  else return (breaks, c)

/-- The characters that short escapes stand for. -/
def shortEscapes : List (Char × Nat) :=
  [('0', 0), ('a', 7), ('b', 8), ('t', 9), ('\t', 9), ('n', 10), ('v', 11), ('f', 12), ('r', 13),
    ('e', 27), (' ', 32), ('"', 34), ('\\', 92), ('/', 47), ('N', 0x85), ('_', 0xA0), ('L', 0x2028),
    ('P', 0x2029)]

/-- The number of digits of escapes by code point. -/
def longEscapes : List (Char × Nat) :=
  [('x', 2), ('u', 4), ('U', 8)]

/-- Hexadecimal digits. -/
def isHexDigit (c : Char) : Bool :=
  c.isDigit || ('a' ≤ c && c ≤ 'f') || ('A' ≤ c && c ≤ 'F')

/-- The character with a code point. -/
def charOfCode (code : Nat) : Except Fault Char :=
  if 0x7FFFFFFF < code then .error .tooLarge
  else if 0x10FFFF < code then .error (.value .codePoint)
  else if 0xD800 ≤ code ∧ code < 0xE000 then .ok (Char.ofNat 0xFFFD)
  else .ok (Char.ofNat code)

/-- What an escape stands for; the backslash has been read. -/
def escape (fuel : Nat) (c : Cursor) : Except Fault (List Char × Cursor) :=
  match shortEscapes.find? (·.1 == c.next), longEscapes.find? (·.1 == c.next) with
  | some (_, code), _ => .ok ([Char.ofNat code], c.forward)
  | none, some (_, width) => do
    let c := c.forward
    let digits := c.rest.take width
    if digits.length < width || !digits.all isHexDigit then throw .invalid
    let ch ← charOfCode (hexValue digits)
    return ([ch], c.advance width)
  | none, none =>
    if isBreak c.next then
      let (_, c) := c.lineBreak
      quotedBreaks fuel c
    else .error .invalid

/-- The text between quotes up to and with the closing one; the opening one has been read. The fuel
bounds the number of pieces. -/
def quotedText (double : Bool) : Nat → Cursor → Except Fault (List Char × Cursor)
  | 0, _ => .error .invalid
  | fuel + 1, c => do
    let ch := c.next
    if double && ch == '"' then return ([], c.forward)
    else if !double && ch == '\'' && c.peek 1 != '\'' then return ([], c.forward)
    else
      let (piece, c) ←
        if !double && ch == '\'' then pure (['\''], c.advance 2)
        else if double && ch == '\\' then escape fuel c.forward
        else if isBlankOrEnd ch then
          let gap := c.run isGap
          let c := c.skip isGap
          if c.rest.isEmpty then throw .invalid
          else if isBreak c.next then quotedFold fuel c
          else pure (gap, c)
        else pure ([ch], c.forward)
      let (more, c) ← quotedText double fuel c
      return (piece ++ more, c)

/-- Line breaks and spaces inside a plain scalar; nothing if a marker between documents follows a
break. The fuel bounds their number. -/
def plainBreaks : Nat → Cursor → Option (List Char) × Cursor
  | 0, c => (none, c)
  | fuel + 1, c =>
    if c.next == ' ' then plainBreaks fuel c.forward
    else if isBreak c.next then
      let (text, c) := c.lineBreak
      if c.atMarker then (none, c)
      else
        let (more, c) := plainBreaks fuel c
        (more.map (text ++ ·), c)
    else (some [], c)

/-- What stands between two runs of a plain scalar: the text that joins them, empty if the scalar
ends here, whether there was a line break, and the place after it. -/
def plainGap (fuel : Nat) (c : Cursor) : List Char × Bool × Cursor :=
  let spaces := c.run (· == ' ')
  let c := c.skip (· == ' ')
  if isBreak c.next then
    let (text, c) := c.lineBreak
    if c.atMarker then ([], true, c)
    else
      let (breaks, c) := plainBreaks fuel c
      match breaks with
      | none => ([], true, c)
      | some breaks =>
        if text ≠ ['\n'] then (text ++ breaks, true, c)
        else if breaks.isEmpty then ([' '], true, c)
        else (breaks, true, c)
  else (spaces, false, c)

/-- The characters of a plain scalar up to a gap or an indicator. -/
def plainRun (inFlow : Bool) : List Char → List Char
  | [] => []
  | c :: rest =>
    let following := rest.headD endMark
    if isBlankOrEnd c ||
        (c == ':' && (isBlankOrEnd following || (inFlow && [',', '[', ']', '\x7b', '\x7d'].contains
          following))) ||
        (inFlow && [',', '?', '[', ']', '\x7b', '\x7d'].contains c) then []
    else c :: plainRun inFlow rest

/-- A plain scalar inside the given indent: its text, whether it ends after a line break, and the
place after it. The gap before the next run is given, and the fuel bounds the number of runs. -/
def plainText (inFlow : Bool) (indent : Int) : Nat → List Char → Bool → Cursor →
    List Char × Bool × Cursor
  | 0, _, broken, c => ([], broken, c)
  | fuel + 1, gap, broken, c =>
    let run := if c.next == '#' then [] else plainRun inFlow c.rest
    if run.isEmpty then ([], broken, c)
    else
      let (between, broken, c) := plainGap fuel (c.advance run.length)
      if between.isEmpty || c.next == '#' || (!inFlow && (c.column : Int) < indent) then
        (gap ++ run, broken, c)
      else
        let (more, broken, c) := plainText inFlow indent fuel between broken c
        (gap ++ run ++ more, broken, c)

/-- How a block ends. -/
inductive Chomping
  | clip
  | keep
  | strip
  deriving DecidableEq

/-- The sign for how a block ends. -/
def chompingSign (c : Cursor) : Option Chomping × Cursor :=
  if c.next == '+' then (some .keep, c.forward)
  else if c.next == '-' then (some .strip, c.forward)
  else (none, c)

/-- The digit for the indent of a block, which must not be zero. -/
def indentDigit (c : Cursor) : Except Fault (Option Nat × Cursor) :=
  if c.next == '0' then .error .invalid
  else if c.next.isDigit then .ok (some (c.next.toNat - 48), c.forward)
  else .ok (none, c)

/-- The signs after the mark of a block, in either order. -/
def blockSigns (c : Cursor) : Except Fault ((Chomping × Option Nat) × Cursor) := do
  let (first, c) := chompingSign c
  let (digit, c) ← indentDigit c
  let (second, c) := if first.isNone && digit.isSome then chompingSign c else (none, c)
  if isSpaceOrEnd c.next then return (((first.or second).getD .clip, digit), c)
  else throw .invalid

/-- The place after the rest of a line that may only hold a comment. -/
def restOfLine (c : Cursor) : Except Fault Cursor :=
  let c := c.skip (· == ' ')
  let c := if c.next == '#' then c.skip (!isBreakOrEnd ·) else c
  if isBreakOrEnd c.next then .ok c.lineBreak.2 else .error .invalid

/-- The line breaks before the first line of a block, and the greatest column that spaces reach. The
fuel bounds their number. -/
def blockLead : Nat → Nat → Cursor → List Char × Nat × Cursor
  | 0, widest, c => ([], widest, c)
  | fuel + 1, widest, c =>
    if c.next == ' ' then
      let c := c.forward
      blockLead fuel (max widest c.column) c
    else if isBreak c.next then
      let (text, c) := c.lineBreak
      let (more, widest, c) := blockLead fuel widest c
      (text ++ more, widest, c)
    else ([], widest, c)

/-- Line breaks with spaces up to an indent after each. The fuel bounds their number. -/
def blockBreaks (indent : Nat) : Nat → Cursor → List Char × Cursor
  | 0, c => ([], c)
  | fuel + 1, c =>
    let c := c.skipSpacesTo indent
    if isBreak c.next then
      let (text, c) := c.lineBreak
      let (more, c) := blockBreaks indent fuel c
      (text ++ more, c)
    else ([], c)

/-- The lines of a block: their text, the break after the last of them, the breaks after that, and
the place after them. The breaks before the next line are given; the fuel bounds the lines. -/
def blockLines (folded : Bool) (indent : Nat) : Nat → List Char → List Char → Cursor →
    List Char × List Char × List Char × Cursor
  | 0, last, breaks, c => ([], last, breaks, c)
  | fuel + 1, last, breaks, c =>
    if c.column ≠ indent ∨ c.rest.isEmpty then ([], last, breaks, c)
    else
      let startsWithText := !isGap c.next
      let line := c.run (!isBreakOrEnd ·)
      let (last, c) := (c.skip (!isBreakOrEnd ·)).lineBreak
      let (after, c) := blockBreaks indent fuel c
      if c.column ≠ indent ∨ c.rest.isEmpty then (breaks ++ line, last, after, c)
      else
        let joint :=
          if folded && last == ['\n'] && startsWithText && !isGap c.next then
            (if after.isEmpty then [' '] else [])
          else last
        let (more, last, after, c) := blockLines folded indent fuel last after c
        (breaks ++ line ++ joint ++ more, last, after, c)

/-- A block inside the given indent; its mark has been read. -/
def blockText (folded : Bool) (outer : Int) (c : Cursor) : Except Fault (List Char × Cursor) := do
  let fuel := c.rest.length + 1
  let ((chomping, digit), c) ← blockSigns c
  let c ← restOfLine c
  let least := (max (outer + 1) 1).toNat
  let (breaks, indent, c) := match digit with
    | none =>
      let (breaks, widest, c) := blockLead fuel 0 c
      (breaks, max least widest, c)
    | some digit =>
      let indent := least + digit - 1
      let (breaks, c) := blockBreaks indent fuel c
      (breaks, indent, c)
  let (text, last, after, c) := blockLines folded indent fuel [] breaks c
  let tail := match chomping with
    | .strip => []
    | .clip => last
    | .keep => last ++ after
  return (text ++ tail, c)

end Typewright.Yaml
