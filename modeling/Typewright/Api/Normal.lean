import Typewright.Api.Operation
import Typewright.Schema.Standalone

/-!
# Normalised descriptions

A normalised description has a name for every schema that needs one and an index of its endpoints.
Names are proposed in this order: the schemas that the description names itself, then, operation by
operation, the schemas of request bodies and responses that have no name, under titles made of the
path. Keys become texts; integers with too many digits cannot.
-/

namespace Typewright.Api

open Schema

/-- The title of the schema that holds all definitions together; no other schema may have it. -/
def topLevelTitle : String := "_toplevelobject_"

/-- What titles of operations begin with if nothing in the path can stand in a name. -/
def rootPathTitle : String := "Root"

/-- An operation with its schemas. -/
structure Call where
  path : String
  method : String
  request : Option Nat
  responses : List (String × Nat)
  deriving DecidableEq, Repr

/-- An endpoint: an operation with the ids of its schemas. -/
structure Endpoint where
  id : String
  path : String
  method : String
  requestModel : Option String
  responseModels : List (String × String)
  deriving DecidableEq, Repr

/-- A normalised description. The graph holds the description and the definitions. -/
structure Normal where
  graph : Graph
  naming : Naming
  schemas : List (String × Nat)
  definitions : List (String × Value)
  endpoints : List Endpoint
  generatedIds : List String
  deriving Repr

/-- The defined mappings that a section holds, by the texts of their keys. -/
def definedEntries (g : Graph) (part : Option Value) : List (String × Nat) :=
  ((part.bind g.entries?).getD []).filterMap fun (key, v) =>
    (defined? g v).map (Display.scalar key, ·)

/-- Whether the key of a defined mapping that a section holds is an integer with too many digits. -/
def hasLongKey (g : Graph) (part : Option Value) : Bool :=
  ((part.bind g.entries?).getD []).any fun (key, v) => isDefined g v && key.isLongInteger

/-- The proposals for the schemas that a section holds. -/
def schemaProposals (g : Graph) (part : Option Value) : List Proposal :=
  (definedEntries g part).map fun (title, schema) => { schema, title }

/-- The proposals for the schemas in the content of what a section holds. -/
def contentProposals (g : Graph) (part : Option Value) : List Proposal :=
  (definedEntries g part).filterMap fun (title, id) =>
    ((g.field? (.node id) "content").bind (Operation.contentSchema? g)).map fun schema =>
      { schema, title }

/-- The proposals for the schemas that a description names itself. -/
def componentProposals (g : Graph) (document : Value) : Except Error (List Proposal) :=
  if isVersion3 g document then
    match g.field? document "components" with
    | none => .ok []
    | some components =>
      if g.isMapping components then do
        Error.refuseLong (["schemas", "responses", "requestBodies"].any fun part =>
          hasLongKey g (g.field? components part))
        return schemaProposals g (g.field? components "schemas") ++
          contentProposals g (g.field? components "responses") ++
          contentProposals g (g.field? components "requestBodies")
      else if g.isTruthy components then .error .noSuchPart
      else .ok []
  else do
    Error.refuseLong (hasLongKey g (g.field? document "definitions"))
    return schemaProposals g (g.field? document "definitions")

/-- The operations under a path, in order. -/
def callsUnder (g : Graph) (path : String) (item : Nat) : Except Error (List Call) := do
  let calls ← ((g.entries? (.node item)).getD []).mapM fun (key, v) =>
    match key, g.entries? v with
    | .str method, some operation =>
      if Operation.isMethod key && isDefined g v then do
        let request ← Operation.requestSchema? g operation
        Error.refuseLong (Operation.hasLongStatus g operation)
        return [{ path, method, request, responses := Operation.responseSchemas g operation }]
      else pure []
    | _, _ => pure []
  return calls.flatten

/-- The operations of a description, in order. -/
def calls (g : Graph) (document : Value) : Except Error (List Call) := do
  Error.refuseLong (hasLongKey g (g.field? document "paths"))
  let under ← (definedEntries g (g.field? document "paths")).mapM fun (path, item) =>
    callsUnder g path item
  return under.flatten

/-- What the titles for an operation under a path begin with. -/
def titleBase (path : String) : String :=
  if Identifier.ofText path = "" then rootPathTitle else path

/-- The word of a method as it shows in descriptions. -/
def methodWord (method : String) : String :=
  String.ofList (method.toList.map Char.toUpper)

/-- The proposals for the schemas of an operation. -/
def callProposals (call : Call) : List Proposal :=
  let place := methodWord call.method ++ " " ++ call.path
  let request := call.request.toList.map fun schema =>
    { schema
      title := titleBase call.path ++ "_RequestBody"
      generated := true
      description := some ("Request body for " ++ place) }
  let responses := call.responses.map fun (status, schema) =>
    { schema
      title := titleBase call.path ++ "_" ++ status ++ "_ResponseBody"
      generated := true
      description := some (status ++ " response body for " ++ place) }
  request ++ responses

/-- The names for a description's proposals. -/
def nameAll (proposals : List Proposal) : Naming :=
  (proposals.foldl Naming.propose (.withReserved [topLevelTitle])).finalize

/-- The id of a named schema. -/
def idOf (naming : Naming) (schema : Nat) : String :=
  (naming.idOf? schema).getD ""

/-- The endpoint of an operation. -/
def endpoint (naming : Naming) (call : Call) : Endpoint where
  id := Text.lower (call.path ++ "::" ++ call.method)
  path := call.path
  method := call.method
  requestModel := call.request.map (idOf naming)
  responseModels := call.responses.map fun (status, schema) => (status, idOf naming schema)

/-- Sets an endpoint in the index; one with the same id is replaced in its place. -/
def putEndpoint : List Endpoint → Endpoint → List Endpoint
  | [], new => [new]
  | old :: rest, new => if old.id = new.id then new :: rest else old :: putEndpoint rest new

/-- Refuses a description that is no mapping. Lists and texts can be searched for a version but have
no sections; other values cannot be searched. -/
def checkMapping (g : Graph) (document : Value) : Except Error Unit :=
  match g.node? document, document with
  | some (.mapping _), _ => .ok ()
  | some (.sequence _), _ => .error .noSuchPart
  | none, .scalar (.str _) => .error .noSuchPart
  | none, _ => .error .wrongKind

/-- Normalises a description without references. -/
def normalise (g : Graph) (document : Value) : Except Error Normal := do
  checkMapping g document
  let components ← componentProposals g document
  let calls ← calls g document
  let naming := nameAll (components ++ calls.flatMap callProposals)
  let (graph, definitions) := Standalone.definitions g naming
  return {
    graph
    naming
    schemas := naming.namedSchemas.map fun schema => (idOf naming schema, schema)
    definitions
    endpoints := (calls.map (endpoint naming)).foldl putEndpoint []
    generatedIds := (naming.namedSchemas.filter naming.isGenerated).map (idOf naming) }

end Typewright.Api
