import Typewright.Yaml.Kind
import Typewright.Yaml.Tokens

/-!
# Trees of a YAML text

The nodes that tokens describe: scalars, sequences and mappings, each of a kind. Nodes are numbered,
and an alias is the number of the node with its anchor, so that a node may stand in several places
or inside itself. A text holds one document at most.
-/

namespace Typewright.Yaml

/-- A node. Its kind may be at odds with its form, as in `!!int [1]`. -/
inductive Tree
  | scalar (kind : Kind) (text : String)
  | sequence (kind : Kind) (items : List Nat)
  | mapping (kind : Kind) (entries : List (Nat × Nat))
  deriving DecidableEq, Repr, Inhabited

namespace Tree

/-- The kind of a node. -/
def kind : Tree → Kind
  | scalar kind _ | sequence kind _ | mapping kind _ => kind

/-- The node with another kind. -/
def withKind (kind : Kind) : Tree → Tree
  | scalar _ text => scalar kind text
  | sequence _ items => sequence kind items
  | mapping _ entries => mapping kind entries

/-- The entries of a mapping; other nodes have none. -/
def entries : Tree → List (Nat × Nat)
  | mapping _ entries => entries
  | _ => []

/-- Whether a node is a mapping by its form. -/
def isMapping : Tree → Bool
  | mapping _ _ => true
  | _ => false

end Tree

/-- What is known while nodes are read: the tokens ahead and the fault after them, the nodes, the
anchors and the handles of tags. -/
structure Reading where
  tokens : List Token
  fault : Option Fault
  nodes : Array Tree := #[]
  anchors : List (String × Nat) := []
  handles : List (String × String) := []

/-- A step of reading nodes. -/
abbrev ReadM := StateT Reading (Except Fault)

namespace ReadM

/-- The next token. -/
def next : ReadM Token := do
  let s ← get
  match s.tokens, s.fault with
  | token :: _, _ => return token
  | [], some fault => throw fault
  | [], none => return .streamEnd

/-- Takes the next token. -/
def skip : ReadM Unit :=
  modify fun s => { s with tokens := s.tokens.drop 1 }

/-- Takes the given token, which must come next. -/
def expect (token : Token) : ReadM Unit := do
  if (← next) = token then skip else throw .invalid

/-- Adds a node. -/
def add (node : Tree) : ReadM Nat := do
  let s ← get
  set { s with nodes := s.nodes.push node }
  return s.nodes.size

/-- Replaces a node. -/
def put (id : Nat) (node : Tree) : ReadM Unit :=
  modify fun s => { s with nodes := s.nodes.setIfInBounds id node }

/-- Gives a node its anchor. -/
def setAnchor (anchor : Option String) (id : Nat) : ReadM Unit :=
  match anchor with
  | some name => modify fun s => { s with anchors := (name, id) :: s.anchors }
  | none => pure ()

/-- An empty scalar. -/
def empty : ReadM Nat :=
  add (.scalar .null "")

/-- The tag in front, in full. -/
def tag? : ReadM (Option String) := do
  match ← next with
  | .tag handle suffix =>
    skip
    match handle with
    | none => return some suffix
    | some handle =>
      match (← get).handles.find? (·.1 == handle) with
      | some (_, expansion) => return some (expansion ++ suffix)
      | none => throw .invalid
  | _ => return none

/-- The anchor in front. -/
def anchor? : ReadM (Option String) := do
  match ← next with
  | .anchor name => skip; return some name
  | _ => return none

/-- The anchor and the tag in front, in either order. -/
def properties : ReadM (Option String × Option String) := do
  match ← anchor? with
  | some anchor => return (some anchor, ← tag?)
  | none =>
    let tag ← tag?
    return (← if tag.isSome then anchor? else pure none, tag)

/-- Refuses an anchor that is in use. -/
def checkAnchor (anchor : Option String) : ReadM Unit := do
  match anchor with
  | some name => if (← get).anchors.any (·.1 == name) then throw .invalid
  | none => pure ()

end ReadM

open ReadM

/-- The kind of a scalar: what its tag names, else what its text shows, unless it is quoted. -/
def scalarKind (tag : Option String) (plain : Bool) (text : String) : Kind :=
  match tag with
  | none => if plain then .ofText text else .string
  | some "!" => .ofText text
  | some tag => .ofTag tag

/-- The kind of a collection: what its tag names, else the kind of its form. -/
def collectionKind (tag : Option String) (form : Kind) : Kind :=
  match tag with
  | none | some "!" => form
  | some tag => .ofTag tag

mutual

/-- Reads a node. `block` says whether block collections may begin here, and `indentless` whether a
sequence may begin without indentation. The fuel bounds the number of steps. -/
def node : Nat → (block indentless : Bool) → ReadM Nat
  | 0, _, _ => throw .invalid
  | fuel + 1, block, indentless => do
    match ← next with
    | .alias name =>
      skip
      match (← get).anchors.find? (·.1 == name) with
      | some (_, id) => return id
      | none => throw .invalid
    | _ =>
      let (anchor, tag) ← properties
      checkAnchor anchor
      let begin (node : Tree) : ReadM Nat := do
        let id ← add node
        setAnchor anchor id
        return id
      let sequenceKind := collectionKind tag .sequence
      let mappingKind := collectionKind tag .mapping
      match ← next with
      | .blockEntry =>
        if indentless then
          let id ← begin (.sequence sequenceKind [])
          put id (.sequence sequenceKind (← indentlessItems fuel))
          return id
        else if anchor.isSome || tag.isSome then begin (.scalar (scalarKind tag true "") "")
        else throw .invalid
      | .scalar text plain =>
        skip
        begin (.scalar (scalarKind tag plain text) text)
      | .sequenceStart =>
        skip
        let id ← begin (.sequence sequenceKind [])
        put id (.sequence sequenceKind (← flowItems fuel true))
        return id
      | .mappingStart =>
        skip
        let id ← begin (.mapping mappingKind [])
        put id (.mapping mappingKind (← flowEntries fuel true))
        return id
      | token =>
        if block && token == .blockSequence then
          skip
          let id ← begin (.sequence sequenceKind [])
          put id (.sequence sequenceKind (← blockItems fuel))
          return id
        else if block && token == .blockMapping then
          skip
          let id ← begin (.mapping mappingKind [])
          put id (.mapping mappingKind (← blockEntries fuel))
          return id
        else if anchor.isSome || tag.isSome then begin (.scalar (scalarKind tag true "") "")
        else throw .invalid

/-- Reads a node, or an empty scalar if one of the given tokens comes next. -/
def nodeUnless (fuel : Nat) (block indentless : Bool) (stops : List Token) : ReadM Nat :=
  match fuel with
  | 0 => throw .invalid
  | fuel + 1 => do
    if stops.contains (← next) then empty else node fuel block indentless

/-- Reads the items of a block sequence up to its end. -/
def blockItems : Nat → ReadM (List Nat)
  | 0 => throw .invalid
  | fuel + 1 => do
    match ← next with
    | .blockEntry =>
      skip
      let item ← nodeUnless fuel true false [.blockEntry, .blockEnd]
      return item :: (← blockItems fuel)
    | .blockEnd => skip; return []
    | _ => throw .invalid

/-- Reads the items of a sequence without indentation. -/
def indentlessItems : Nat → ReadM (List Nat)
  | 0 => throw .invalid
  | fuel + 1 => do
    match ← next with
    | .blockEntry =>
      skip
      let item ← nodeUnless fuel true false [.blockEntry, .key, .value, .blockEnd]
      return item :: (← indentlessItems fuel)
    | _ => return []

/-- Reads the entries of a block mapping up to its end. -/
def blockEntries : Nat → ReadM (List (Nat × Nat))
  | 0 => throw .invalid
  | fuel + 1 => do
    match ← next with
    | .key =>
      skip
      let key ← nodeUnless fuel true true [.key, .value, .blockEnd]
      let value ← blockValue fuel
      return (key, value) :: (← blockEntries fuel)
    | .value =>
      throw .invalid
    | .blockEnd => skip; return []
    | _ => throw .invalid

/-- Reads the value of an entry of a block mapping. -/
def blockValue : Nat → ReadM Nat
  | 0 => throw .invalid
  | fuel + 1 => do
    if (← next) = .value then
      skip
      nodeUnless fuel true true [.key, .value, .blockEnd]
    else empty

/-- Reads the items of a flow sequence up to its end. An item may be a single entry of a
mapping. -/
def flowItems : Nat → Bool → ReadM (List Nat)
  | 0, _ => throw .invalid
  | fuel + 1, first => do
    if (← next) = .sequenceEnd then
      skip
      return []
    else
      if !first then expect .flowEntry
      match ← next with
      | .key =>
        skip
        let id ← add (.mapping .mapping [])
        let key ← nodeUnless fuel false false [.value, .flowEntry, .sequenceEnd]
        let value ← flowValue fuel [.flowEntry, .sequenceEnd]
        put id (.mapping .mapping [(key, value)])
        return id :: (← flowItems fuel false)
      | .sequenceEnd => skip; return []
      | _ =>
        let item ← node fuel false false
        return item :: (← flowItems fuel false)

/-- Reads the entries of a flow mapping up to its end. -/
def flowEntries : Nat → Bool → ReadM (List (Nat × Nat))
  | 0, _ => throw .invalid
  | fuel + 1, first => do
    if (← next) = .mappingEnd then
      skip
      return []
    else
      if !first then expect .flowEntry
      match ← next with
      | .key =>
        skip
        let key ← nodeUnless fuel false false [.value, .flowEntry, .mappingEnd]
        let value ← flowValue fuel [.flowEntry, .mappingEnd]
        return (key, value) :: (← flowEntries fuel false)
      | .mappingEnd => skip; return []
      | _ =>
        let key ← node fuel false false
        let value ← empty
        return (key, value) :: (← flowEntries fuel false)

/-- Reads the value of an entry in a flow collection. -/
def flowValue : Nat → List Token → ReadM Nat
  | 0, _ => throw .invalid
  | fuel + 1, stops => do
    if (← next) = .value then
      skip
      nodeUnless fuel false false stops
    else empty

end

/-- Reads the directives of a document. Two versions, a version other than 1, and two meanings of
one handle are refused. -/
def directives : Nat → Bool → List (String × String) → ReadM (List (String × String))
  | 0, _, _ => throw .invalid
  | fuel + 1, versioned, handles => do
    match ← next with
    | .version major =>
      if versioned || major != 1 then throw .invalid
      skip
      directives fuel true handles
    | .tagHandle handle expansion =>
      if handles.any (·.1 == handle) then throw .invalid
      skip
      directives fuel versioned ((handle, expansion) :: handles)
    | .directive => skip; directives fuel versioned handles
    | _ => return handles

/-- The handles that need no directive. -/
def defaultHandles : List (String × String) :=
  [("!", "!"), ("!!", "tag:yaml.org,2002:")]

/-- Takes the markers of a document's end. -/
def skipEnds : Nat → ReadM Unit
  | 0 => pure ()
  | fuel + 1 => do
    if (← next) = .documentEnd then
      skip
      skipEnds fuel

/-- Reads a document with a marker at its start, after directives; nothing at the end of the
text. -/
def explicitDocument (fuel : Nat) : ReadM (Option Nat) := do
  skipEnds fuel
  if (← next) = .streamEnd then return none
  else
    let handles ← directives fuel false []
    expect .documentStart
    modify fun s => { s with handles := handles ++ defaultHandles }
    match ← next with
    | .version _ | .tagHandle _ _ | .directive | .documentStart | .documentEnd | .streamEnd =>
      return some (← empty)
    | _ => return some (← node fuel true false)

/-- Reads the document of a text, if there is one. -/
def document (fuel : Nat) : ReadM (Option Nat) := do
  let root ← match ← next with
    | .version _ | .tagHandle _ _ | .directive | .documentStart | .streamEnd =>
      explicitDocument fuel
    | _ => do
      modify fun s => { s with handles := defaultHandles }
      pure (some (← node fuel true false))
  skipEnds fuel
  if (← next) = .streamEnd then return root else throw .invalid

/-- The nodes of a text, and the root if there is one. -/
def trees (text : String) : Except Fault (Array Tree × Option Nat) := do
  let (tokens, fault) := tokens text
  let (root, s) ← (document (3 * tokens.length + 4)).run { tokens, fault }
  return (s.nodes, root)

end Typewright.Yaml
