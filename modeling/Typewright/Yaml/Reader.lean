import Typewright.Document.Display
import Typewright.Yaml.Meaning
import Typewright.Yaml.Merge

/-!
# Reading YAML

Reads a YAML text into a document graph. A node that an alias names again is the same container, so
a text can describe shared containers and containers inside themselves. Containers are filled level
by level: first what the root holds, then what its parts hold, and the first fault met in this order
is reported.
-/

namespace Typewright.Yaml

/-- A graph under construction. The container of a node has the node's number. `queued` are the
containers to fill next, and `sets` and `pairs` are containers that stand for values of these kinds.
-/
structure Building where
  trees : Array Tree
  graph : Graph
  begun : List Nat := []
  queued : List Nat := []
  sets : List Nat := []
  pairs : List Nat := []

/-- A step of construction. -/
abbrev BuildM := StateT Building (Except Fault)

namespace BuildM

/-- The node with a number. -/
def tree (id : Nat) : BuildM Tree := do
  return (← get).trees.getD id default

/-- The text of a node as a scalar; that of a mapping stands under its key `=`. The fuel bounds the
depth. -/
def scalarText (trees : Array Tree) : Nat → Tree → Except Fault String
  | _, .scalar _ text => .ok text
  | 0, _ => .error .invalid
  | fuel + 1, tree =>
    match tree.entries.find? (Merge.isUnder trees .value) with
    | some (_, value) => scalarText trees fuel (trees.getD value default)
    | none => .error .invalid

/-- The kinds that denote containers. -/
def isContainer (kind : Kind) : Bool :=
  [.sequence, .mapping, .set, .orderedMapping, .pairs].contains kind

/-- The value of a node. A container is only begun. -/
def value (id : Nat) : BuildM Value := do
  let tree ← tree id
  if isContainer tree.kind then
    modify fun s =>
      if s.begun.contains id then s
      else { s with begun := id :: s.begun, queued := id :: s.queued }
    return .node id
  else
    let trees := (← get).trees
    let text ← scalarText trees trees.size tree
    -- the value of a mapping is looked up for all kinds but this one, which takes it for a text
    if tree.kind = .timestamp ∧ !tree.entries.isEmpty then throw .wrongKind
    return .scalar (← Meaning.scalar tree.kind text)

/-- The entries of a mapping. A container cannot be a key. -/
def entries : List (Nat × Nat) → Entries → BuildM Entries
  | [], before => return before
  | (key, v) :: rest, before => do
    match ← value key with
    | .node _ => throw .invalid
    | .scalar key =>
      let v ← value v
      entries rest (before.put key v)

/-- The entries of a mapping with those it takes over. -/
def mergedEntries (id : Nat) : BuildM Entries := do
  let s ← get
  let (_, trees) ← (Merge.resolve (Merge.bound s.trees) id).run s.trees
  set { s with trees }
  entries (trees.getD id default).entries []

/-- The pair that a mapping of one entry is. -/
def pair (id : Nat) : BuildM Value := do
  match ← tree id with
  | .mapping _ [(key, v)] =>
    let key ← value key
    let v ← value v
    let s ← get
    let (graph, node) := s.graph.add (.sequence [key, v])
    set { s with graph, pairs := s.graph.size :: s.pairs }
    return node
  | _ => throw .invalid

/-- Fills the container of a node. -/
def fill (id : Nat) : BuildM Unit := do
  let tree ← tree id
  let node ← match tree.kind, tree with
    | .sequence, .sequence _ items => do
      pure (Node.sequence (← items.mapM value))
    | .mapping, .mapping _ _ => do
      pure (Node.mapping (← mergedEntries id))
    | .set, .mapping _ _ => do
      modify fun s => { s with sets := id :: s.sets }
      pure (Node.mapping (← mergedEntries id))
    | .orderedMapping, .sequence _ items | .pairs, .sequence _ items => do
      pure (Node.sequence (← items.mapM pair))
    | _, _ => throw .invalid
  modify fun s => { s with graph := s.graph.set id node }

/-- Fills the containers level by level. The fuel bounds the number of levels. -/
def fillAll : Nat → BuildM Unit
  | 0 => pure ()
  | fuel + 1 => do
    let queued := (← get).queued.reverse
    if !queued.isEmpty then
      modify fun s => { s with queued := [] }
      queued.forM fill
      fillAll fuel

end BuildM

namespace Building

/-- The text of a set by its keys. -/
def setText (entries : Entries) : String :=
  if entries.isEmpty then "set()"
  else "\x7b" ++ ", ".intercalate (entries.map fun (key, _) => Display.inner key) ++ "\x7d"

/-- A value in which sets and pairs are no containers but values of their own. -/
def sealedValue (s : Building) : Value → Value
  | .scalar x => .scalar x
  | .node id =>
    if s.sets.contains id then
      .scalar (.foreign "set" (setText ((s.graph.entries? (.node id)).getD [])))
    else if s.pairs.contains id then
      let items := (s.graph.items? (.node id)).getD []
      .scalar (.foreign "tuple"
        ("(" ++ ", ".intercalate (items.map (Display.texts.value s.graph)) ++ ")"))
    else .node id

/-- The finished graph. -/
def sealedGraph (s : Building) : Graph :=
  if s.sets.isEmpty && s.pairs.isEmpty then s.graph
  else ⟨s.graph.nodes.map fun
    | .mapping entries => .mapping (entries.map fun (key, v) => (key, s.sealedValue v))
    | .sequence items => .sequence (items.map s.sealedValue)⟩

end Building

/-- Reads a text. A text without a document is nothing. -/
def read (text : String) : Except Fault Document := do
  let (trees, root) ← trees text
  match root with
  | none => return ⟨.empty, .null⟩
  | some root =>
    let graph : Graph := ⟨Array.replicate trees.size (.sequence [])⟩
    let build : BuildM Value := do
      let v ← BuildM.value root
      BuildM.fillAll (trees.size + 1)
      return v
    let (v, s) ← build.run { trees, graph }
    return ⟨s.sealedGraph, s.sealedValue v⟩

end Typewright.Yaml
