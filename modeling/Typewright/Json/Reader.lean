import Typewright.Document.Graph
import Typewright.Text.CodeTable
import Typewright.Number.Binary64
import Typewright.Number.Numeral

/-!
# Reading JSON

Reads a JSON text into a document graph; every object and array becomes a container of its own. A
key that occurs twice keeps its first place and its last value. Beyond the standard, the words
`NaN`, `Infinity` and `-Infinity` are numbers. Integers have at most 4300 digits.
-/

namespace Typewright.Json

open Text

/-- Blanks between the tokens. -/
def isSpace (c : Char) : Bool :=
  c == ' ' || c == '\t' || c == '\n' || c == '\r'

/-- The text without the blanks in front. -/
def skipSpace (text : List Char) : List Char :=
  text.dropWhile isSpace

/-- Whether a character is a hexadecimal digit. -/
def isHexDigit (c : Char) : Bool :=
  c.isDigit || ('a' ≤ c && c ≤ 'f') || ('A' ≤ c && c ≤ 'F')

/-- Four hexadecimal digits in front of a text. -/
def unit? : List Char → Option (Nat × List Char)
  | a :: b :: c :: d :: rest =>
    if [a, b, c, d].all isHexDigit then some (hexValue [a, b, c, d], rest) else none
  | _ => none

/-- The character that a short escape stands for. -/
def shortEscape? (c : Char) : Option Char :=
  if c = '"' then some '"'
  else if c = '\\' then some '\\'
  else if c = '/' then some '/'
  else if c = 'b' then some (Char.ofNat 8)
  else if c = 'f' then some (Char.ofNat 12)
  else if c = 'n' then some '\n'
  else if c = 'r' then some '\r'
  else if c = 't' then some '\t'
  else none

/-- A character of one or two UTF-16 units, the first of which has been read. A unit that is half
of a pair and stands alone becomes U+FFFD. -/
def joinUnits (unit : Nat) (rest : List Char) : Char × List Char :=
  if 0xD800 ≤ unit ∧ unit < 0xDC00 then
    match rest with
    | '\\' :: 'u' :: more =>
      match unit? more with
      | some (low, after) =>
        if 0xDC00 ≤ low ∧ low < 0xE000 then
          (Char.ofNat (0x10000 + (unit - 0xD800) * 0x400 + (low - 0xDC00)), after)
        else (Char.ofNat 0xFFFD, rest)
      | none => (Char.ofNat 0xFFFD, rest)
    | _ => (Char.ofNat 0xFFFD, rest)
  else if 0xDC00 ≤ unit ∧ unit < 0xE000 then (Char.ofNat 0xFFFD, rest)
  else (Char.ofNat unit, rest)

/-- The characters of a literal up to its closing quote. The fuel bounds their number. -/
def literal? : Nat → List Char → Option (List Char × List Char)
  | 0, _ => none
  | _ + 1, [] => none
  | _ + 1, '"' :: rest => some ([], rest)
  | fuel + 1, '\\' :: 'u' :: rest => do
    let (unit, rest) ← unit? rest
    let (c, rest) := joinUnits unit rest
    let (cs, rest) ← literal? fuel rest
    return (c :: cs, rest)
  | fuel + 1, '\\' :: e :: rest => do
    let c ← shortEscape? e
    let (cs, rest) ← literal? fuel rest
    return (c :: cs, rest)
  | _ + 1, ['\\'] => none
  | fuel + 1, c :: rest =>
    if c.toNat < 32 then none
    else do
      let (cs, rest) ← literal? fuel rest
      return (c :: cs, rest)

/-- A literal whose opening quote has been read. -/
def string? (text : List Char) : Option (String × List Char) :=
  (literal? (text.length + 1) text).map fun (cs, rest) => (String.ofList cs, rest)

/-- The digits in front of a text and what follows them. -/
def digits (text : List Char) : List Char × List Char :=
  (text.takeWhile Char.isDigit, text.dropWhile Char.isDigit)

/-- The value of decimal digits. -/
def digitsValue (ds : List Char) : Nat :=
  ds.foldl (fun n d => 10 * n + (d.toNat - '0'.toNat)) 0

/-- The digits of the whole part: a zero alone, or digits that do not begin with one. -/
def wholePart? : List Char → Option (List Char × List Char)
  | '0' :: rest => some (['0'], rest)
  | text =>
    match digits text with
    | ([], _) => none
    | (ds, rest) => some (ds, rest)

/-- The digits after a decimal point, none if there is no point with digits after it. -/
def fractionPart : List Char → List Char × List Char
  | '.' :: rest =>
    match digits rest with
    | ([], _) => ([], '.' :: rest)
    | (ds, after) => (ds, after)
  | text => ([], text)

/-- The power of ten, if there is a complete one. -/
def powerPart (text : List Char) : Option Int × List Char :=
  match text with
  | e :: rest =>
    if e = 'e' ∨ e = 'E' then
      let (negative, unsigned) := match rest with
        | '-' :: r => (true, r)
        | '+' :: r => (false, r)
        | r => (false, r)
      match digits unsigned with
      | ([], _) => (none, text)
      | (ds, after) =>
        (some (if negative then -(digitsValue ds : Int) else digitsValue ds), after)
    else (none, text)
  | [] => (none, [])

/-- A number without its sign. One with a decimal point or a power of ten is binary, any other is
an integer. -/
def number? (negative : Bool) (text : List Char) : Option (Scalar × List Char) := do
  let (whole, rest) ← wholePart? text
  let (fraction, rest) := fractionPart rest
  let (power, rest) := powerPart rest
  if fraction.isEmpty && power.isNone then
    if Numeral.maxDigits < whole.length then none
    else
      let n : Int := digitsValue whole
      return (.int (if negative then -n else n), rest)
  else
    let mantissa := digitsValue (whole ++ fraction)
    return (.float (.ofDecimal negative mantissa (power.getD 0 - fraction.length)), rest)

/-- Drops a word from the front of a text. -/
def word? (word : String) (text : List Char) : Option (List Char) :=
  if word.toList.isPrefixOf text then some (text.drop word.length) else none

/-- A value that is neither an object nor an array. -/
def scalar? (text : List Char) : Option (Scalar × List Char) :=
  match text with
  | '"' :: rest => (string? rest).map fun (s, rest) => (.str s, rest)
  | 'n' :: _ => (word? "null" text).map (.null, ·)
  | 't' :: _ => (word? "true" text).map (.bool true, ·)
  | 'f' :: _ => (word? "false" text).map (.bool false, ·)
  | 'N' :: _ => (word? "NaN" text).map (.float .nan, ·)
  | 'I' :: _ => (word? "Infinity" text).map (.float (.infinity false), ·)
  | '-' :: 'I' :: _ => (word? "-Infinity" text).map (.float (.infinity true), ·)
  | '-' :: rest => number? true rest
  | _ => number? false text

mutual

/-- A value in front of a text. The fuel bounds the number of steps. -/
def value? : Nat → List Char → Graph → Option (Value × List Char × Graph)
  | 0, _, _ => none
  | fuel + 1, text, g =>
    match text with
    | '[' :: rest => do
      let (items, rest, g) ←
        match skipSpace rest with
        | ']' :: after => some ([], after, g)
        | inside => items? fuel inside g
      let (g, v) := g.add (.sequence items)
      return (v, rest, g)
    | '\x7b' :: rest => do
      let (entries, rest, g) ←
        match skipSpace rest with
        | '\x7d' :: after => some ([], after, g)
        | inside => entries? fuel inside [] g
      let (g, v) := g.add (.mapping entries)
      return (v, rest, g)
    | _ => (scalar? text).map fun (s, rest) => (.scalar s, rest, g)

/-- The items of an array, up to and with its closing bracket. -/
def items? : Nat → List Char → Graph → Option (List Value × List Char × Graph)
  | 0, _, _ => none
  | fuel + 1, text, g => do
    let (item, rest, g) ← value? fuel text g
    match skipSpace rest with
    | ']' :: after => return ([item], after, g)
    | ',' :: after => do
      let (items, rest, g) ← items? fuel (skipSpace after) g
      return (item :: items, rest, g)
    | _ => none

/-- The entries of an object, up to and with its closing brace, added to those before. -/
def entries? : Nat → List Char → Entries → Graph → Option (Entries × List Char × Graph)
  | 0, _, _, _ => none
  | fuel + 1, text, before, g =>
    match text with
    | '"' :: rest => do
      let (key, rest) ← string? rest
      match skipSpace rest with
      | ':' :: after => do
        let (v, rest, g) ← value? fuel (skipSpace after) g
        let entries := before.put (.str key) v
        match skipSpace rest with
        | '\x7d' :: after => return (entries, after, g)
        | ',' :: after => entries? fuel (skipSpace after) entries g
        | _ => none
      | _ => none
    | _ => none

end

/-- Reads a whole JSON text. -/
def read? (text : String) : Option Document := do
  let chars := text.toList
  let (v, rest, g) ← value? (2 * chars.length + 2) (skipSpace chars) .empty
  if (skipSpace rest).isEmpty then some ⟨g, v⟩ else none

end Typewright.Json
