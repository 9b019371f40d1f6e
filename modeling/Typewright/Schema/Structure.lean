import Typewright.Document.Search

/-!
# The structure of schemas

A schema is a mapping of a document, told apart by its identity and not by its contents. It is
defined if it is not a mere reference. Its structural children are what it holds under `properties`,
`items`, `additionalProperties` and the composition keywords; its structural dependencies are the
defined schemas that can be reached through such children, itself included.
-/

namespace Typewright.Schema

/-- The keyword of a reference. -/
def refKey : String := "$ref"

/-- The number of a mapping that is not a reference. -/
def defined? (g : Graph) (v : Value) : Option Nat :=
  match v, g.entries? v with
  | .node id, some entries => if entries.has refKey then none else some id
  | _, _ => none

/-- Whether a value is a mapping that is not a reference. -/
def isDefined (g : Graph) (v : Value) : Bool :=
  (defined? g v).isSome

/-- Whether a mapping that can be reached from a value has an entry for a reference. -/
def hasRefs (g : Graph) : Value → Bool
  | .scalar _ => false
  | .node id => (g.reachable id).any (g.hasField refKey)

/-- The keywords that compose a schema of others. -/
def compositionKeys : List String := ["allOf", "anyOf", "oneOf"]

/-- What a schema holds under `properties`. -/
def propertyChildren (g : Graph) (entries : Entries) : List Value :=
  match (entries.get? "properties").bind g.entries? with
  | some properties => properties.map (·.2)
  | none => []

/-- What a schema holds under `items`: the members of a list, or the one value that is there. -/
def itemChildren (g : Graph) (entries : Entries) : List Value :=
  match entries.get? "items" with
  | none => []
  | some v =>
    match g.items? v with
    | some items => items
    | none => [v]

/-- What a schema holds under `additionalProperties`, if it is a mapping. -/
def additionalChildren (g : Graph) (entries : Entries) : List Value :=
  match entries.get? "additionalProperties" with
  | some v => if g.isMapping v then [v] else []
  | none => []

/-- What a schema holds under a composition keyword. -/
def memberChildren (g : Graph) (entries : Entries) (key : String) : List Value :=
  ((entries.get? key).bind g.items?).getD []

/-- The structural children of a schema with the given entries, in the order of declaration. -/
def children (g : Graph) (entries : Entries) : List Value :=
  propertyChildren g entries ++ itemChildren g entries ++ additionalChildren g entries ++
    compositionKeys.flatMap (memberChildren g entries)

/-- The defined structural children of a schema. -/
def definedChildren (g : Graph) (id : Nat) : List Nat :=
  ((g.entries? (.node id)).map fun entries =>
    (children g entries).filterMap (defined? g)).getD []

/-- The structural dependencies of a schema, itself first, in the order in which a search visits
them. A value that is not defined has none. -/
def dependencies (g : Graph) (v : Value) : List Nat :=
  match defined? g v with
  | some id => Search.order (definedChildren g) g.size id
  | none => []

end Typewright.Schema
