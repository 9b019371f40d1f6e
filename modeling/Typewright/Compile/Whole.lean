import Typewright.Api.Normal
import Typewright.Compile.Render

/-!
# Compiling all definitions together

All definitions are compiled in one go, as definitions and as properties of a single root schema,
with fixed options.
-/

namespace Typewright.Compile

/-- A mapping with the given definitions. -/
def definitionEntries (definitions : List (String × Value)) : Entries :=
  definitions.map fun (id, v) => (.str id, v)

/-- Adds the root schema that refers to every definition by its id. -/
def addRoot (g : Graph) (definitions : List (String × Value)) : Graph × Value :=
  let (g, asDefinitions) := g.add (.mapping (definitionEntries definitions))
  let (g, asProperties) := g.add (.mapping (definitionEntries definitions))
  g.add (.mapping
    [(.str "title", .str Api.topLevelTitle), (.str "type", .str "object"),
      (.str "definitions", asDefinitions), (.str "properties", asProperties),
      (.str "additionalProperties", .bool false)])

/-- The options for a whole description, as the outside compiler takes them. -/
def wholeOptions : Entries :=
  [(.str "declareExternallyReferenced", .bool true), (.str "enableConstEnums", .bool true),
    (.str "unreachableDefinitions", .bool false), (.str "strictIndexSignatures", .bool false),
    (.str "format", .bool false), (.str "ignoreMinAndMaxItems", .bool true),
    (.str "bannerComment", .str "")]

/-- Compiles all definitions of a description. -/
def wholeSource (g : Graph) (definitions : List (String × Value)) : Except Error Source :=
  let (g, root) := addRoot g definitions
  source g root (.ofEntries g wholeOptions)

end Typewright.Compile
