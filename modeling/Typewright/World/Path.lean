import Typewright.Text.CodeTable

/-!
# Paths

Paths as texts with slashes between their segments. The normal form of a path is made from the text
alone: it is where the path leads if it goes through no link.
-/

namespace Typewright.Path

open Text

/-- The segments of a path without empty segments and single dots; two dots go up. -/
def normalSegments (path : List Char) : List (List Char) :=
  (splitAtChar '/' path).foldl (fun kept segment =>
    if segment.isEmpty || segment == ['.'] then kept
    else if segment == ['.', '.'] then kept.dropLast
    else kept ++ [segment]) []

/-- A path from the root of the file system. -/
def absolute (directory path : String) : String :=
  let full := if path.toList.head? = some '/' then path else directory ++ "/" ++ path
  "/" ++ String.ofList (['/'].intercalate (normalSegments full.toList))

end Typewright.Path
