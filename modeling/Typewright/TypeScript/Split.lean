import Typewright.Error
import Typewright.Text.Search
import Typewright.Text.Word
import Typewright.TypeScript.Braces

/-!
# Splitting source text into declarations

Exported interfaces and aliases are found by the words at the start of a line. An interface ends
with the brace that closes its body; an alias ends where the next declaration, or the comment above
it, begins. A block comment directly before a declaration belongs to it. Each step cuts a
declaration off the front of the text.

Marking inserts an underscore before the name of the first declaration of a text.
-/

namespace Typewright.Source

open Text

/-- The beginning of a declaration: whether it is an interface, its name, and the number of
characters up to and with the name. -/
structure Head where
  isInterface : Bool
  title : List Char
  width : Nat
  deriving DecidableEq, Repr

/-- The text after blanks, if there are any. -/
def afterBlanks? (text : List Char) : Option (List Char) :=
  match text with
  | [] => none
  | c :: rest => if isBlank c then some (rest.dropWhile isBlank) else none

/-- The text after a word. -/
def afterWord? (word : String) (text : List Char) : Option (List Char) :=
  if word.toList.isPrefixOf text then some (text.drop word.length) else none

/-- The word that a text begins with: whether it is the one for interfaces or for aliases. -/
def keyword? (text : List Char) : Option (Bool × List Char) :=
  match afterWord? "interface" text with
  | some rest => some (true, rest)
  | none => (afterWord? "type" text).map (false, ·)

/-- The head of the declaration that a text begins with. -/
def head? (text : List Char) : Option Head := do
  let rest ← afterWord? "export" text
  let rest ← afterBlanks? rest
  let (isInterface, rest) ← keyword? rest
  let rest ← afterBlanks? rest
  let title := rest.takeWhile isWord
  if title.isEmpty then none
  else some ⟨isInterface, title, text.length - rest.length + title.length⟩

/-- The first declaration in a text and its offset. The flag says whether the text begins a
line. -/
def findHead? : Bool → List Char → Option (Nat × Head)
  | _, [] => none
  | atLineStart, c :: rest =>
    match (if atLineStart then head? (c :: rest) else none) with
    | some head => some (0, head)
    | none => (findHead? (c == '\n') rest).map fun (offset, head) => (offset + 1, head)

/-- The offset of the block comment directly before an offset, or that offset itself. -/
def commentStart (text : List Char) (offset : Nat) : Nat :=
  let before := text.take offset
  if ['/', '*'].isPrefixOf (trimEnd before).reverse then
    (findLast? ['/', '*'] before).getD offset
  else offset

/-- A declaration cut out of source text. -/
structure Definition where
  title : String
  code : String
  deriving DecidableEq, Repr

/-- The offset after the declaration whose head ends at `stop`. -/
def endOfCode (text : List Char) (head : Head) (stop : Nat) : Except Error Nat :=
  if head.isInterface then
    match bracePair? text stop with
    | some (_, closing) => .ok (closing + 1)
    | none => .error (.unbalanced stop)
  else
    match findHead? false (text.drop stop) with
    | some (offset, _) => .ok (commentStart text (stop + offset))
    | none => .ok text.length

/-- Cuts the first declaration off a text; nothing if there is none. -/
def next? (text : List Char) : Except Error (Option (Definition × List Char)) :=
  match findHead? true text with
  | none => .ok none
  | some (offset, head) => do
    let stop ← endOfCode text head (offset + head.width)
    let start := commentStart text offset
    let code := trim ((text.take stop).drop start)
    return some (⟨String.ofList head.title, String.ofList code⟩, text.drop stop)

/-- The outcome of splitting: each declaration with the text left after it, the text left at the
end, and what went wrong there. -/
structure Pieces where
  definitions : List (Definition × List Char)
  rest : List Char
  failure : Option Error
  deriving Repr

/-- Splits a text. A step that leaves the text as it is would be repeated without end. -/
def split (text : List Char) : Pieces :=
  match next? text with
  | .error failure => ⟨[], text, some failure⟩
  | .ok none => ⟨[], text, none⟩
  | .ok (some (definition, rest)) =>
    if rest.length < text.length then
      let pieces := split rest
      { pieces with definitions := (definition, rest) :: pieces.definitions }
    else ⟨[(definition, rest)], rest, some .endless⟩
termination_by text.length

/-- The number of characters before the name of the declaration that a text begins with, blanks
in front of it included. A blank must follow the name. -/
def titleOffset? (text : List Char) : Option Nat := do
  let body := text.dropWhile isBlank
  let head ← head? body
  let _ ← afterBlanks? (body.drop head.width)
  return text.length - body.length + head.width - head.title.length

/-- A text with an underscore before the name of its first declaration. The flag says whether the
text begins a line. -/
def markFrom : Bool → List Char → List Char
  | _, [] => []
  | atLineStart, c :: rest =>
    match (if atLineStart then titleOffset? (c :: rest) else none) with
    | some offset => (c :: rest).take offset ++ '_' :: (c :: rest).drop offset
    | none => c :: markFrom (c == '\n') rest

/-- Marks the first declaration of a text as generated. -/
def mark (code : String) : String :=
  String.ofList (markFrom true code.toList)

end Typewright.Source
