import Typewright.Document.Pointer
import Typewright.Schema.Structure
import Typewright.World.Load

/-!
# Linked documents

Resolving the references of a document, within it and into others, which are loaded by their
addresses with a given step. Every document is copied into one graph, as a tree, and its references
are noted with the address that they are relative to. The target of a reference is found by loading
its document, unless that is at hand, and walking along a pointer; a reference met on the way stands
for its own target. A reference that is asked for while its target is being looked for leads
nowhere.

Then all references that can be reached are resolved, in preorder, and replaced by their targets.
All references to one position so come to hold the same container.
-/

namespace Typewright.Reference

open Text

/-- A reference: the address that it is relative to, and its text. -/
structure Link where
  base : String
  text : String
  deriving DecidableEq, Repr

/-- What is known while documents are linked: the containers, the references among them, the
documents at hand by address, and the targets found. -/
structure Linking where
  graph : Graph := .empty
  links : List (Nat × Link) := []
  documents : List (String × Value) := []
  targets : List (Nat × Value) := []

namespace Linking

/-- The reference that a container is, if it is one. -/
def link? (s : Linking) (id : Nat) : Option Link :=
  (s.links.find? (·.1 == id)).map (·.2)

/-- The target found for a reference. -/
def target? (s : Linking) (id : Nat) : Option Value :=
  (s.targets.find? (·.1 == id)).map (·.2)

/-- The document at hand under an address. -/
def document? (s : Linking) (address : String) : Option Value :=
  (s.documents.find? (·.1 == address)).map (·.2)

/-- The number of the reference that a value is, if it is one. -/
def reference? (s : Linking) : Value → Option Nat
  | .node id => if (s.link? id).isSome then some id else none
  | .scalar _ => none

end Linking

/-- A step of linking: it may load documents and may fail. -/
abbrev LinkM (m : Type → Type) := StateT Linking (ExceptT Error m)

/-- How deeply references may lead to each other. -/
def maxDepth : Nat := 1000

/-- How many containers the resolution of all references may visit. -/
def maxVisits : Nat := 1000000

/-- The reason that an error gives when it is reported inside another one. -/
def reasonOf (e : Error) : String :=
  e.kind ++ ": " ++ e.message

/-- A value copied as a tree, with the mappings that have an entry for a reference, inner ones
first. Bytes become the list of their numbers. The fuel bounds the depth. -/
def copyTree (source : Graph) : Nat → Graph × List Nat → Value →
    Except Error ((Graph × List Nat) × Value)
  | _, (g, found), .scalar (.bytes bs) =>
    let (g, v) := g.add (.sequence (bs.map fun b => .scalar (.int b.toNat)))
    .ok ((g, found), v)
  | _, s, .scalar v => .ok (s, .scalar v)
  | 0, _, .node _ => .error .endless
  | fuel + 1, s, .node id =>
    match source.get? id with
    | none => .error .wrongKind
    | some (.mapping entries) => do
      let ((g, found), copied) ← entries.foldlM (fun (s, kept) (key, v) => do
        let (s, v) ← copyTree source fuel s v
        return (s, kept ++ [(key, v)])) (s, [])
      let (g, v) := g.add (.mapping copied)
      let here := if Entries.has copied Schema.refKey then v.node?.toList else []
      return ((g, found ++ here), v)
    | some (.sequence items) => do
      let ((g, found), copied) ← items.foldlM (fun (s, kept) v => do
        let (s, v) ← copyTree source fuel s v
        return (s, kept ++ [v])) (s, [])
      let (g, v) := g.add (.sequence copied)
      return ((g, found), v)

/-- The segments of the fragment of a reference. -/
def fragmentSegments (fragment : List Char) : List String :=
  if fragment.isEmpty then []
  else
    let decoded := (Uri.decode fragment).dropWhile (· == '/')
    (Pointer.segments decoded).map Pointer.decodeSegment

/-- One step of a pointer into a value that is not a reference. Lists and texts take indexes, which
may count from the end. -/
def stepInto (g : Graph) (v : Value) (segment : String) : Option Value :=
  let place (length : Nat) : Option Nat := do
    let index ← Numeral.int? 10 segment.toList
    let index := if index < 0 then index + length else index
    if index < 0 then none else some index.toNat
  match v with
  | .scalar (.str text) => do
    let chars := text.toList
    let c ← chars[← place chars.length]?
    return .str (String.ofList [c])
  | .scalar _ => none
  | .node id =>
    match g.get? id with
    | some (.sequence items) => do items[← place items.length]?
    | some (.mapping entries) => entries.get? segment
    | none => none

section

variable {m : Type → Type} [Monad m] (load : String → Loading m Document)

/-- The failure of a reference. -/
def failLink {α : Type} (full reason : String) : LinkM m α :=
  throw (.reference full reason)

/-- The outcome of splitting an address. -/
def ofAddress {α : Type} (result : Except Uri.Fault α) : LinkM m α :=
  match result with
  | .ok a => pure a
  | .error fault => throw (Load.addressError fault)

/-- Notes a reference. -/
def noteLink (base : String) (id : Nat) (text : String) : LinkM m Unit :=
  modify fun s => { s with links := (id, ⟨base, text⟩) :: s.links }

/-- Looks for the target of each reference inside a pointer's way; `resolve` finds targets, and a
reference being resolved stands for its own entries. -/
def walkPointer (resolve : Nat → LinkM m Value) (self : Nat) (full : String)
    (fragment : List Char) : Value → List String → LinkM m Value
  | v, [] => pure v
  | v, segment :: rest => do
    let v ← match (← get).reference? v with
      | some id => if id = self then pure v else resolve id
      | none => pure v
    match stepInto (← get).graph v segment with
    | some next => walkPointer resolve self full fragment next rest
    | none =>
      failLink full
        ("Unresolvable JSON pointer: " ++ Display.quoted (String.ofList fragment))

/-- Notes the references among the mappings found in a copied document. An entry for a reference
that is itself a reference counts by its target. -/
def noteLinks (resolve : Nat → LinkM m Value) (base : String) : List Nat → LinkM m Unit
  | [] => pure ()
  | id :: rest => do
    match (← get).graph.field? (.node id) Schema.refKey with
    | some (.scalar (.str text)) => noteLink base id text
    | some v =>
      match (← get).reference? v with
      | some inner =>
        match ← resolve inner with
        | .scalar (.str text) => noteLink base id text
        | _ => pure ()
      | none => pure ()
    | none => pure ()
    noteLinks resolve base rest

/-- Takes a document in under an address; it is kept at hand unless the address has a
fragment. -/
def takeIn (resolve : Nat → LinkM m Value) (address : String) (document : Document) :
    LinkM m Value := do
  let (base, fragment) ← ofAddress (Uri.withoutFragment address.toList)
  let base := String.ofList base
  let copied := copyTree document.graph maxDepth ((← get).graph, []) document.root
  match copied with
  | .error e => throw e
  | .ok ((g, found), root) =>
    modify fun s => { s with graph := g }
    noteLinks resolve base found
    if fragment.isEmpty then
      let key ← ofAddress (Uri.canonical base.toList)
      modify fun s => { s with documents := (String.ofList key, root) :: s.documents }
    return root

/-- Loads a document for a reference. A failure to load is the failure of the reference. -/
def loadFor (full address : String) : LinkM m Document := do
  match ← (load address).run with
  | .ok document => return document
  | .error e => failLink full (reasonOf e)

/-- The target of a reference, up to a depth. The references that are being resolved are given. -/
def target : Nat → List Nat → Nat → LinkM m Value
  | 0, _, _ => throw .endless
  | depth + 1, pending, id => do
    let s ← get
    match s.target? id, s.link? id with
    | some v, _ => return v
    | none, none => return .node id
    | none, some link =>
      if pending.contains id then throw .endless
      let resolve := target depth (id :: pending)
      let full ← ofAddress (Uri.join link.base.toList link.text.toList)
      let (address, fragment) ← ofAddress (Uri.withoutFragment full)
      let full := String.ofList full
      let key ← ofAddress (Uri.canonical address)
      let document ← match s.document? (String.ofList key) with
        | some v => pure v
        | none => do
          let loaded ← loadFor load full (String.ofList address)
          takeIn resolve (String.ofList address) loaded
      let found ← walkPointer resolve id full fragment document (fragmentSegments fragment)
      if found = .node id then failLink full "Reference refers directly to itself."
      let found ← match (← get).reference? found with
        | some other => resolve other
        | none => pure found
      modify fun s => { s with targets := (id, found) :: s.targets }
      return found

/-- The values that a value holds, if it is a container. -/
def Linking.inside (s : Linking) : Value → List Value
  | .scalar _ => []
  | .node id => ((s.graph.get? id).map Node.values).getD []

/-- Resolves all references that a stack of values leads to, in preorder. Each reference goes
through what its target holds, also if the target itself has been met: a reference to a container
around it so comes before its neighbours. The fuel bounds the number of visits. -/
def resolveAll : Nat → List Nat → List Value → LinkM m Unit
  | 0, _, _ => throw .endless
  | _ + 1, _, [] => pure ()
  | fuel + 1, seen, .scalar _ :: stack => resolveAll fuel seen stack
  | fuel + 1, seen, .node id :: stack => do
    if seen.contains id then resolveAll fuel seen stack
    else
      let found ← match (← get).link? id with
        | some _ => target load maxDepth [] id
        | none => pure (.node id)
      resolveAll fuel (id :: seen) ((← get).inside found ++ stack)

/-- A value with its target in place of a reference. -/
def Linking.linked (s : Linking) : Value → Value
  | .node id => (s.target? id).getD (.node id)
  | v => v

/-- A container with targets in place of references. -/
def Linking.linkedNode (s : Linking) : Node → Node
  | .mapping entries => .mapping (entries.map fun (key, v) => (key, s.linked v))
  | .sequence items => .sequence (items.map s.linked)

/-- Replaces all references of a document, which are relative to an address. -/
def link (base : String) (document : Document) : Loading m Document := do
  let step : LinkM m Value := do
    let root ← takeIn (target load maxDepth []) base document
    resolveAll load maxVisits [] [root]
    return root
  let (root, s) ← step.run {}
  return ⟨⟨s.graph.nodes.map s.linkedNode⟩, s.linked root⟩

end

end Typewright.Reference
