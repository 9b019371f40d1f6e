import Typewright.Document.Display
import Typewright.Text.CodeTable
import Typewright.Text.Search

/-!
# Pointers

A pointer names a position in a document by the keys and indexes on the way from its root. In its
text each segment follows a slash; within segments a tilde is written `~0` and a slash `~1`.
`Pointer.decodeSegment` undoes `Pointer.encodeSegment`.
-/

namespace Typewright.Pointer

open Text

/-- A segment as it stands between slashes. -/
def encodeSegment (segment : String) : String :=
  String.ofList (segment.toList.flatMap fun c =>
    if c = '~' then ['~', '0'] else if c = '/' then ['~', '1'] else [c])

/-- The segment that stands between two slashes. -/
def decodeSegment (text : List Char) : String :=
  String.ofList (replacePair '~' '0' ['~'] (replacePair '~' '1' ['/'] text))

/-- The text of a pointer, empty for the root. -/
def encode (segments : List String) : String :=
  String.join (segments.map fun segment => "/" ++ encodeSegment segment)

/-- The segments of a pointer's text, without interpretation of the empty ones. -/
def segments (text : List Char) : List (List Char) :=
  splitAtChar '/' text

/-- The text of a pointer with one more step to a key. -/
def toKey (pointer : String) (key : Scalar) : String :=
  pointer ++ "/" ++ encodeSegment (Display.scalar key)

/-- The text of a pointer with one more step to an index. -/
def toIndex (pointer : String) (index : Nat) : String :=
  pointer ++ "/" ++ Numeral.decimal index

/-- The steps from a container to the values that it holds. -/
def steps (pointer : String) : Node → List (String × Value)
  | .mapping entries => entries.map fun (key, value) => (toKey pointer key, value)
  | .sequence items => items.mapIdx fun index value => (toIndex pointer index, value)

end Typewright.Pointer

namespace Typewright.Graph

/-- Adds the pointers of the mappings that a value leads to, each by its first occurrence in
preorder, to those already found. Sequences are followed wherever they occur, but not inside
themselves. The fuel bounds the depth. -/
def labelsFrom (g : Graph) : Nat → List Nat → String → Value → List (Nat × String) →
    List (Nat × String)
  | 0, _, _, _, found => found
  | _, _, _, .scalar _, found => found
  | fuel + 1, around, pointer, .node id, found =>
    match g.get? id with
    | none => found
    | some node =>
      let blocked := match node with
        | .mapping _ => found.any (·.1 == id)
        | .sequence _ => around.contains id
      if blocked then found
      else
        let found := match node with
          | .mapping _ => found ++ [(id, pointer)]
          | .sequence _ => found
        (Pointer.steps pointer node).foldl
          (fun found (pointer, value) => labelsFrom g fuel (id :: around) pointer value found) found

/-- The pointer of each mapping in a document, by its first occurrence in preorder. -/
def labels (g : Graph) (root : Value) : List (Nat × String) :=
  g.labelsFrom (g.size + 1) [] "" root []

end Typewright.Graph
