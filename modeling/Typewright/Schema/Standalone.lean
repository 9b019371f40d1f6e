import Typewright.Schema.Naming
import Typewright.Schema.Structure

/-!
# Stand-alone copies of schemas

For each named schema a copy is made in which every named schema inside is replaced by a reference
to its definition, so that each copy stands alone. The copy has one container for each container
that can be reached without passing a named schema; sharing and cycles among them are kept. The root
of a copy gets its name as title, and a description if one was proposed and it has none; the titles
of its structural dependencies are dropped.

Copies are added to the graph and leave what was there as it is.
-/

namespace Typewright.Standalone

open Schema

/-- Where definitions are found from the root of the schema to compile. -/
def definitionsPointer : String := "#/definitions/"

/-- The entries of a reference to a definition. -/
def referenceTo (id : String) : Entries :=
  [(.str refKey, .str (definitionsPointer ++ id))]

/-- Whether a container is a named schema, which is replaced inside others. -/
def isReplaced (g : Graph) (naming : Naming) (id : Nat) : Bool :=
  g.isMapping (.node id) && naming.isNamed id

/-- The containers that are copied along with a container: what it holds and is not replaced. -/
def copiedWith (g : Graph) (naming : Naming) (id : Nat) : List Nat :=
  (g.successors id).filter fun inside => !isReplaced g naming inside

/-- The containers of the copy of a root, in the order of their copies. -/
def members (g : Graph) (naming : Naming) (root : Nat) : List Nat :=
  Search.order (copiedWith g naming) g.size root

/-- The number of the copy of a member; copies are numbered from the given base. -/
def copyOf (base : Nat) (members : List Nat) (id : Nat) : Nat :=
  base + members.idxOf id

/-- A value in a copy. References to named schemas are containers of their own, each added at the
end of those given, which begin at number `start`. -/
def copyValue (g : Graph) (naming : Naming) (base start : Nat) (members : List Nat)
    (references : List Node) : Value → List Node × Value
  | .scalar s => (references, .scalar s)
  | .node id =>
    if isReplaced g naming id then
      (references ++ [.mapping (referenceTo ((naming.idOf? id).getD ""))],
        .node (start + references.length))
    else (references, .node (copyOf base members id))

/-- The entries that the copy of a schema begins with: its name as title, and the proposed
description if it has none of its own that counts as true. -/
def leading (g : Graph) (naming : Naming) (id : Nat) (entries : Entries) : Entries :=
  match naming.nameOf? id with
  | none => []
  | some name =>
    let own := ((entries.get? "description").map g.isTruthy).getD false
    let description := match naming.descriptionOf? id with
      | some text => if text = "" ∨ own then [] else [(.str "description", .str text)]
      | none => []
    (.str "title", .str name) :: description

/-- Copies values from left to right. -/
def copyValues (g : Graph) (naming : Naming) (base start : Nat) (members : List Nat) :
    List Node → List Value → List Node × List Value
  | references, [] => (references, [])
  | references, v :: rest =>
    let (references, copy) := copyValue g naming base start members references v
    let (references, copies) := copyValues g naming base start members references rest
    (references, copy :: copies)

/-- The entries of a mapping that its copy keeps: all but the title of a structural
dependency. -/
def keptEntries (nested : List Nat) (id : Nat) (entries : Entries) : Entries :=
  entries.filter fun (key, _) => !(key == .str "title" && nested.contains id)

/-- The copy of a container. -/
def copyNode (g : Graph) (naming : Naming) (base start : Nat) (members nested : List Nat)
    (references : List Node) (id : Nat) : List Node × Node :=
  match g.get? id with
  | none => (references, .sequence [])
  | some (.sequence items) =>
    let (references, items) := copyValues g naming base start members references items
    (references, .sequence items)
  | some (.mapping entries) =>
    let kept := keptEntries nested id entries
    let (references, values) :=
      copyValues g naming base start members references (kept.map (·.2))
    let copied := (kept.map (·.1)).zip values
    (references, .mapping
      (copied.foldl (fun all (key, value) => all.put key value) (leading g naming id entries)))

/-- Copies containers from left to right. -/
def copyNodes (g : Graph) (naming : Naming) (base start : Nat) (members nested : List Nat) :
    List Node → List Nat → List Node × List Node
  | references, [] => (references, [])
  | references, id :: rest =>
    let (references, node) := copyNode g naming base start members nested references id
    let (references, nodes) := copyNodes g naming base start members nested references rest
    (references, node :: nodes)

/-- The graph with the copy of a container added, and the copy. -/
def copy (g : Graph) (naming : Naming) : Value → Graph × Value
  | .scalar s => (g, .scalar s)
  | .node root =>
    let members := members g naming root
    let base := g.size
    let (references, nodes) := copyNodes g naming base (base + members.length) members
      (dependencies g (.node root)) [] members
    (⟨g.nodes ++ nodes.toArray ++ references.toArray⟩, .node base)

/-- Adds the copies of named schemas one after the other, and gives them by their ids. -/
def copyAll (naming : Naming) : Graph → List Nat → Graph × List (String × Value)
  | g, [] => (g, [])
  | g, schema :: rest =>
    let (g, copied) := copy g naming (.node schema)
    let (g, more) := copyAll naming g rest
    (g, ((naming.idOf? schema).getD "", copied) :: more)

/-- The definitions of all named schemas by their ids, in the order of the names. -/
def definitions (g : Graph) (naming : Naming) : Graph × List (String × Value) :=
  copyAll naming g naming.namedSchemas

end Typewright.Standalone
