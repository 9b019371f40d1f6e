import Typewright.Error
import Typewright.Schema.Structure

/-!
# Operations

The schemas that an operation of an interface description holds for its request body and for its
responses. Both shapes in use are read: bodies by media type, and a body parameter or a schema
directly under a response. What is not of the expected shape holds no schema.
-/

namespace Typewright.Api

/-- Whether a description is of version 3 of its format. -/
def isVersion3 (g : Graph) (document : Value) : Bool :=
  (g.field? document "openapi").isSome

end Typewright.Api

namespace Typewright.Operation

open Schema

/-- The words that name the methods of an operation. -/
def methods : List String :=
  ["get", "put", "post", "delete", "options", "head", "patch", "trace"]

/-- Whether a key names a method. -/
def isMethod : Scalar → Bool
  | .str s => methods.contains s
  | _ => false

/-- The defined schema that a value holds under `schema`. -/
def heldSchema? (g : Graph) (v : Value) : Option Nat :=
  (g.field? v "schema").bind (defined? g)

/-- The schema of the first media type that has one. -/
def contentSchema? (g : Graph) (content : Value) : Option Nat :=
  ((g.entries? content).getD []).findSome? fun (_, mediaType) =>
    if isDefined g mediaType then heldSchema? g mediaType else none

/-- What an operation lists under `parameters`. A value that is no list counts as an empty one if it
counts as false or has no usable members; other values cannot be listed. -/
def parameters (g : Graph) (operation : Entries) : Except Error (List Value) :=
  match operation.get? "parameters" with
  | none => .ok []
  | some v =>
    match g.node? v, v with
    | some (.sequence items), _ => .ok items
    | some (.mapping _), _ => .ok []
    | none, .scalar (.str _) => .ok []
    | none, .scalar (.bytes _) => .ok []
    | none, _ => if g.isTruthy v then .error .wrongKind else .ok []

/-- Whether a parameter stands for the body. -/
def isBodyParameter (g : Graph) (parameter : Value) : Bool :=
  isDefined g parameter && g.field? parameter "in" == some (.str "body")

/-- The schema of an operation's request body. A `requestBody` hides the parameters. -/
def requestSchema? (g : Graph) (operation : Entries) : Except Error (Option Nat) :=
  match operation.get? "requestBody" with
  | some body =>
    .ok (if isDefined g body then (g.field? body "content").bind (contentSchema? g) else none)
  | none => do
    let parameters ← parameters g operation
    return parameters.findSome? fun parameter =>
      if isBodyParameter g parameter then heldSchema? g parameter else none

/-- The schema of a response. A `content` hides a schema beside it. -/
def responseSchema? (g : Graph) (response : Value) : Option Nat :=
  if isDefined g response then
    match g.field? response "content" with
    | some content => contentSchema? g content
    | none => heldSchema? g response
  else none

/-- Sets the schema for a status. A status met before keeps its place. -/
def putStatus : List (String × Nat) → String → Nat → List (String × Nat)
  | [], status, schema => [(status, schema)]
  | (s, old) :: rest, status, schema =>
    if s = status then (status, schema) :: rest else (s, old) :: putStatus rest status schema

/-- The schemas of an operation's responses by status, in order; responses without one are left
out. -/
def responseSchemas (g : Graph) (operation : Entries) : List (String × Nat) :=
  (((operation.get? "responses").bind g.entries?).getD []).foldl
    (fun found (status, response) =>
      match responseSchema? g response with
      | some schema => putStatus found (Display.scalar status) schema
      | none => found) []

/-- Whether the status of a response with a schema is an integer with too many digits. -/
def hasLongStatus (g : Graph) (operation : Entries) : Bool :=
  (((operation.get? "responses").bind g.entries?).getD []).any fun (status, response) =>
    (responseSchema? g response).isSome && status.isLongInteger

end Typewright.Operation
