import Typewright.Text.Blank
import Typewright.Text.Plain

/-!
# Safe identifiers

Turning an arbitrary text into a name that TypeScript accepts. The text is first brought to plain
letters (`Text.plain`). Then a pass (`Identifier.pass`) blanks out what a name cannot hold, folds
snake case into camel case, capitalises letters after digits, dollar signs and blanks, and drops the
blanks. A pass can leave a digit in front, so passes are repeated until one changes nothing.
-/

namespace Typewright.Identifier

open Text

/-- Characters that may begin a name. -/
def isStart (c : Char) : Bool :=
  c.isAlpha || c == '_' || c == '$'

/-- Characters that may stand in a name. -/
def isPart (c : Char) : Bool :=
  isStart c || c.isDigit

/-- Digits and the dollar sign, after which a letter becomes a capital. -/
def isDigitLike (c : Char) : Bool :=
  c.isDigit || c == '$'

/-- A character of a name, or a space for any other. -/
def blankUnlessPart (c : Char) : Char :=
  if isPart c then c else ' '

/-- Blanks out what a name cannot hold. Blanks in front, together with one character that cannot
begin a name, become one space. -/
def blankIllegal (text : List Char) : List Char :=
  let blanks := text.takeWhile isBlank
  match text.dropWhile isBlank with
  | [] => if blanks.isEmpty then [] else [' ']
  | c :: rest =>
    if isStart c then (if blanks.isEmpty then [] else [' ']) ++ c :: rest.map blankUnlessPart
    else ' ' :: rest.map blankUnlessPart

/-- Capitalises a letter after an underscore in front, which stays. -/
def capitaliseMarked : List Char → List Char
  | '_' :: c :: rest => if c.isLower then '_' :: c.toUpper :: rest else '_' :: c :: rest
  | text => text

/-- Joins snake case: an underscore before a small letter goes, and the letter becomes a capital. -/
def joinSnake : List Char → List Char
  | [] => []
  | [c] => [c]
  | c :: d :: rest =>
    if c = '_' ∧ d.isLower then d.toUpper :: joinSnake rest else c :: joinSnake (d :: rest)

/-- Capitalises each letter that directly follows a character of the given class. The flag says
whether the character before the text is in the class. -/
def capitaliseAfter (cls : Char → Bool) : Bool → List Char → List Char
  | _, [] => []
  | after, c :: rest => (if after then c.toUpper else c) :: capitaliseAfter cls (cls c) rest

/-- Capitalises the first character. -/
def capitaliseFirst : List Char → List Char
  | [] => []
  | c :: rest => c.toUpper :: rest

/-- One pass of the conversion. -/
def pass (text : List Char) : List Char :=
  let named := joinSnake (capitaliseMarked (blankIllegal text))
  let capitalised := capitaliseAfter isBlank false (capitaliseAfter isDigitLike false named)
  capitaliseFirst (capitalised.filter (fun c => !isBlank c))

/-- Repeats passes until one changes nothing, at most the given number of times. -/
def settle : Nat → List Char → List Char
  | 0, text => text
  | fuel + 1, text =>
    let passed := pass text
    if passed = text then text else settle fuel passed

/-- The safe identifier for a text, empty if nothing in the text can begin a name. A pass that
changes the text shortens it or turns small letters into capitals, which bounds their number. -/
def ofText (text : String) : String :=
  let letters := plain text.toList
  String.ofList (settle (2 * letters.length + 1) letters)

/-- Whether a text can stand as a property name without quotes: a character that may begin a name,
then characters of a name, then possibly one line feed. -/
def isSafe (text : String) : Bool :=
  match text.toList with
  | [] => false
  | c :: rest =>
    isStart c &&
      (rest.all isPart || (rest.getLast? == some '\n' && rest.dropLast.all isPart))

end Typewright.Identifier
