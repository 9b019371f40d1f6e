import Typewright.Schema.Naming
import Typewright.Schema.Structure
import Typewright.TypeScript.Split
import Typewright.Warning

/-!
# Models

A model is the declaration of one named schema, cut out of the text of a compiler, with the ids of
the schemas that it depends on. Declarations are matched with schemas by their names in lower case.
The name of a generated schema is marked with an underscore.
-/

namespace Typewright

open Text

/-- A model. -/
structure Model where
  id : String
  title : String
  code : String
  generated : Bool
  dependencies : List String
  deriving DecidableEq, Repr

namespace Model

/-- The ids of the named schemas that a schema depends on, itself apart, each once. -/
def dependenciesOf (g : Graph) (naming : Naming) (schema : Nat) (own : String) : List String :=
  (((Schema.dependencies g (.node schema)).filterMap naming.idOf?).filter
    fun id => id != "" && id != own).eraseDups

/-- The text of a model: marked if it is generated, and ending in one line feed. -/
def codeOf (generated : Bool) (code : String) : String :=
  let marked := if generated then Source.mark code else code
  String.ofList ((marked.toList.reverse.dropWhile (· == '\n')).reverse ++ ['\n'])

/-- Sets a model; one with the same id is replaced in its place. -/
def put : List Model → Model → List Model
  | [], new => [new]
  | old :: rest, new => if old.id = new.id then new :: rest else old :: put rest new

/-- What extraction is given besides the text: the schemas by id, their names, and the ids of
generated and of excluded schemas. -/
structure Context where
  graph : Graph
  naming : Naming
  schemas : List (String × Nat)
  generatedIds : List String
  excludedIds : List String

/-- The model of a declaration. A declaration without a schema depends on nothing, with a
warning. -/
def ofDefinition (context : Context) (definition : Source.Definition) : Model × List Warning :=
  let id := lower definition.title
  let generated := context.generatedIds.contains id
  let (dependencies, warnings) :=
    match (context.schemas.find? (·.1 == id)).map (·.2) with
    | some schema => (dependenciesOf context.graph context.naming schema id, [])
    | none => ([], [.orphanDeclaration definition.title])
  ({ id, title := definition.title, code := codeOf generated definition.code, generated,
      dependencies }, warnings)

/-- The models of declarations that are not excluded, in order, and the warnings about them. -/
def ofDefinitions (context : Context) (definitions : List Source.Definition) :
    List Model × List Warning :=
  let excluded := context.excludedIds.map lower
  let kept := definitions.filter fun definition => !excluded.contains (lower definition.title)
  let found := kept.map (ofDefinition context)
  (found.foldl (fun models (model, _) => put models model) [], found.flatMap (·.2))

/-- The models in a source text. -/
def extract (context : Context) (source : String) : Except Error (List Model × List Warning) :=
  let pieces := Source.split source.toList
  match pieces.failure with
  | some failure => .error failure
  | none => .ok (ofDefinitions context (pieces.definitions.map (·.1)))

end Model

end Typewright
