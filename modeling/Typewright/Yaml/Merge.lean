import Typewright.Yaml.Tree

/-!
# Merged mappings

A mapping may take entries over from others under the key `<<`: from one mapping, or from several in
a sequence, the first of which counts most. Entries taken over stand in front of the mapping's own.
The mappings they come from take over theirs first; as a mapping can lead back to itself, an entry
under `<<` is removed before what it names is looked at.
-/

namespace Typewright.Yaml

/-- A step that may change nodes. -/
abbrev MergeM := StateT (Array Tree) (Except Fault)

namespace Merge

/-- The node with a number. -/
def tree (id : Nat) : MergeM Tree := do
  return (← get).getD id default

/-- Sets the entries of a mapping. -/
def setEntries (id : Nat) (entries : List (Nat × Nat)) : MergeM Unit := do
  let kind := (← tree id).kind
  modify (·.setIfInBounds id (.mapping kind entries))

/-- Whether an entry is under the given kind of key. -/
def isUnder (trees : Array Tree) (kind : Kind) (entry : Nat × Nat) : Bool :=
  (trees.getD entry.1 default).kind == kind

/-- The keys `=` of a mapping become texts. -/
def plainKeys (id : Nat) : MergeM Unit := do
  for (key, _) in (← tree id).entries do
    if (← tree key).kind = .value then
      modify fun trees => trees.modify key (·.withKind .string)

mutual

/-- Takes over the entries that a mapping names. The fuel bounds the number of steps. -/
def resolve : Nat → Nat → MergeM Unit
  | 0, _ => throw .invalid
  | fuel + 1, id => do
    let taken ← taken fuel id
    setEntries id (taken ++ (← tree id).entries)
    plainKeys id

/-- Removes the entries under `<<` from a mapping and gives the entries that they name. -/
def taken : Nat → Nat → MergeM (List (Nat × Nat))
  | 0, _ => throw .invalid
  | fuel + 1, id => do
    let trees ← get
    let entries := (← tree id).entries
    match entries.find? (isUnder trees .merge) with
    | none => return []
    | some entry =>
      setEntries id (entries.eraseP (isUnder trees .merge))
      let named ← match ← tree entry.2 with
        | .mapping _ _ => sources fuel [entry.2]
        | .sequence _ items => sources fuel items
        | .scalar _ _ => throw .invalid
      return named ++ (← taken fuel id)

/-- The entries of several mappings, those of the last in front. -/
def sources : Nat → List Nat → MergeM (List (Nat × Nat))
  | 0, _ => throw .invalid
  | _ + 1, [] => return []
  | fuel + 1, id :: rest => do
    if !(← tree id).isMapping then throw .invalid
    resolve fuel id
    let own := (← tree id).entries
    return (← sources fuel rest) ++ own

end

/-- How many steps taking over can need: every entry under `<<` is removed once, and the nodes it
names are gone through. -/
def bound (trees : Array Tree) : Nat :=
  trees.foldl (fun bound tree =>
    bound + match tree with
      | .mapping _ entries => 3 * entries.length + 3
      | .sequence _ items => items.length
      | .scalar _ _ => 0) 3

end Merge

end Typewright.Yaml
