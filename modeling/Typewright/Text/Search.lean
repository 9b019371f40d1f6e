/-!
# Finding and replacing within a text

Texts are lists of characters, and an offset counts characters. Searches report the first or the
last place where one text occurs in another.
-/

namespace Typewright.Text

/-- The offset of the first occurrence of a pattern. -/
def find? (pattern : List Char) : List Char → Option Nat
  | [] => if pattern.isEmpty then some 0 else none
  | c :: rest =>
    if pattern.isPrefixOf (c :: rest) then some 0 else (find? pattern rest).map (· + 1)

/-- The offset of the last occurrence of a pattern. -/
def findLast? (pattern : List Char) : List Char → Option Nat
  | [] => if pattern.isEmpty then some 0 else none
  | c :: rest =>
    match findLast? pattern rest with
    | some offset => some (offset + 1)
    | none => if pattern.isPrefixOf (c :: rest) then some 0 else none

/-- The text before the first occurrence of a pattern and the text after it. -/
def cut? (pattern text : List Char) : Option (List Char × List Char) :=
  (find? pattern text).map fun offset => (text.take offset, text.drop (offset + pattern.length))

/-- The text before the last occurrence of a pattern and the text after it. -/
def cutLast? (pattern text : List Char) : Option (List Char × List Char) :=
  (findLast? pattern text).map fun offset => (text.take offset, text.drop (offset + pattern.length))

/-- Every occurrence of the two-character pattern `a b`, from left to right and without overlap,
becomes `image`. -/
def replacePair (a b : Char) (image : List Char) : List Char → List Char
  | [] => []
  | [c] => [c]
  | c :: d :: rest =>
    if c = a ∧ d = b then image ++ replacePair a b image rest
    else c :: replacePair a b image (d :: rest)

end Typewright.Text
