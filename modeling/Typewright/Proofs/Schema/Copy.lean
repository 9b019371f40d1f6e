import Typewright.Proofs.Document.Entries
import Typewright.Schema.Standalone

/-!
# How a copy is made

Copying goes through the members of a copy from left to right and collects the references that it
adds on the way. What has been copied stays right when more references are added, so each function
has one lemma: the references grow by references, and what it gives is a copy of what it was given
(`Standalone.copyValue_spec` to `Standalone.copyNodes_spec`). `Standalone.copy_spec` says where the
copies and the references stand in the graph.
-/

namespace Typewright.Standalone

open Schema

/-! ## What is copied -/

section

variable (g : Graph) (naming : Naming)

/-- A reference to the definition of a named schema. -/
def IsReference (node : Node) : Prop :=
  ∃ id, isReplaced g naming id = true ∧ node = .mapping (referenceTo ((naming.idOf? id).getD ""))

/-- Some references, with further ones after them. -/
def Grown (references more : List Node) : Prop :=
  ∃ added, more = references ++ added ∧ ∀ node ∈ added, IsReference g naming node

variable (base start : Nat) (members : List Nat)

/-- The copy of a value among the given references. -/
inductive CopiedValue (references : List Node) : Value → Value → Prop
  | scalar (s : Scalar) : CopiedValue references (.scalar s) (.scalar s)
  | member {id : Nat} (kept : isReplaced g naming id = false) :
      CopiedValue references (.node id) (.node (copyOf base members id))
  | reference {id place : Nat} (replaced : isReplaced g naming id = true)
      (held : references[place]? =
        some (.mapping (referenceTo ((naming.idOf? id).getD "")))) :
      CopiedValue references (.node id) (.node (start + place))

/-- The copy of an entry: the key as it is, and the copy of the value. -/
def CopiedEntry (references : List Node) (entry copy : Scalar × Value) : Prop :=
  copy.1 = entry.1 ∧ CopiedValue g naming base start members references entry.2 copy.2

/-- The copy of a container. -/
inductive CopiedNode (nested : List Nat) (references : List Node) : Nat → Node → Prop
  | missing {id : Nat} (absent : g.get? id = none) :
      CopiedNode nested references id (.sequence [])
  | sequence {id : Nat} {items copies : List Value} (found : g.get? id = some (.sequence items))
      (copied : List.Forall₂ (CopiedValue g naming base start members references) items copies) :
      CopiedNode nested references id (.sequence copies)
  | mapping {id : Nat} {entries copies : Entries} (found : g.get? id = some (.mapping entries))
      (copied : List.Forall₂ (CopiedEntry g naming base start members references)
        (keptEntries nested id entries) copies) :
      CopiedNode nested references id
        (.mapping (copies.foldl (fun all entry => all.put entry.1 entry.2)
          (leading g naming id entries)))

end

section

variable {g : Graph} {naming : Naming} {base start : Nat} {members nested : List Nat}
variable {references more most : List Node}

theorem Grown.refl (references : List Node) : Grown g naming references references :=
  ⟨[], by simp, by simp⟩

theorem Grown.trans (first : Grown g naming references more) (second : Grown g naming more most) :
    Grown g naming references most := by
  obtain ⟨added, rfl, areReferences⟩ := first
  obtain ⟨further, rfl, alsoReferences⟩ := second
  refine ⟨added ++ further, by simp, fun node member => ?_⟩
  rcases List.mem_append.1 member with old | new
  · exact areReferences node old
  · exact alsoReferences node new

theorem CopiedValue.grow {v copy : Value}
    (copied : CopiedValue g naming base start members references v copy)
    (grown : Grown g naming references more) :
    CopiedValue g naming base start members more v copy := by
  cases copied with
  | scalar s => exact .scalar s
  | member kept => exact .member kept
  | reference replaced held =>
    obtain ⟨added, rfl, _⟩ := grown
    obtain ⟨bound, _⟩ := List.getElem?_eq_some_iff.1 held
    exact .reference replaced (by rw [List.getElem?_append_left bound, held])

theorem CopiedNode.grow {id : Nat} {node : Node}
    (copied : CopiedNode g naming base start members nested references id node)
    (grown : Grown g naming references more) :
    CopiedNode g naming base start members nested more id node := by
  cases copied with
  | missing absent => exact .missing absent
  | sequence found all => exact .sequence found (all.imp fun _ _ one => one.grow grown)
  | mapping found all =>
    exact .mapping found (all.imp fun _ _ one => ⟨one.1, one.2.grow grown⟩)

theorem forall₂_zip {entries : Entries} {copies : List Value}
    (copied : List.Forall₂ (CopiedValue g naming base start members references)
      (entries.map (·.2)) copies) :
    List.Forall₂ (CopiedEntry g naming base start members references) entries
      ((entries.map (·.1)).zip copies) := by
  induction entries generalizing copies with
  | nil =>
    cases copied
    exact .nil
  | cons entry entries ih =>
    cases copied with
    | cons one rest => exact .cons ⟨rfl, one⟩ (ih rest)

variable (g naming base start members nested references)

theorem copyValue_spec (v : Value) :
    Grown g naming references (copyValue g naming base start members references v).1 ∧
      CopiedValue g naming base start members
        (copyValue g naming base start members references v).1 v
        (copyValue g naming base start members references v).2 := by
  cases v with
  | scalar s => exact ⟨Grown.refl _, .scalar s⟩
  | node id =>
    rw [copyValue]
    by_cases replaced : isReplaced g naming id = true
    · rw [if_pos replaced]
      refine ⟨⟨_, rfl, fun node member => ?_⟩, .reference replaced (by simp)⟩
      rw [List.mem_singleton.1 member]
      exact ⟨id, replaced, rfl⟩
    · rw [if_neg replaced]
      exact ⟨Grown.refl _, .member (by simpa using replaced)⟩

theorem copyValues_spec (vs : List Value) :
    Grown g naming references (copyValues g naming base start members references vs).1 ∧
      List.Forall₂ (CopiedValue g naming base start members
        (copyValues g naming base start members references vs).1) vs
        (copyValues g naming base start members references vs).2 := by
  induction vs generalizing references with
  | nil => exact ⟨Grown.refl _, .nil⟩
  | cons v vs ih =>
    obtain ⟨grown, copied⟩ := copyValue_spec g naming base start members references v
    obtain ⟨grownLater, copiedLater⟩ := ih
      (copyValue g naming base start members references v).1
    exact ⟨grown.trans grownLater, .cons (copied.grow grownLater) copiedLater⟩

theorem copyNode_spec (id : Nat) :
    Grown g naming references (copyNode g naming base start members nested references id).1 ∧
      CopiedNode g naming base start members nested
        (copyNode g naming base start members nested references id).1 id
        (copyNode g naming base start members nested references id).2 := by
  rw [copyNode]
  split
  · next absent => exact ⟨Grown.refl _, .missing absent⟩
  · next items found =>
    obtain ⟨grown, copied⟩ := copyValues_spec g naming base start members references items
    exact ⟨grown, .sequence found copied⟩
  · next entries found =>
    obtain ⟨grown, copied⟩ := copyValues_spec g naming base start members references
      ((keptEntries nested id entries).map (·.2))
    exact ⟨grown, .mapping found (forall₂_zip copied)⟩

theorem copyNodes_spec (ids : List Nat) :
    Grown g naming references (copyNodes g naming base start members nested references ids).1 ∧
      List.Forall₂ (CopiedNode g naming base start members nested
        (copyNodes g naming base start members nested references ids).1) ids
        (copyNodes g naming base start members nested references ids).2 := by
  induction ids generalizing references with
  | nil => exact ⟨Grown.refl _, .nil⟩
  | cons id ids ih =>
    obtain ⟨grown, copied⟩ := copyNode_spec g naming base start members nested references id
    obtain ⟨grownLater, copiedLater⟩ := ih
      (copyNode g naming base start members nested references id).1
    exact ⟨grown.trans grownLater, .cons (copied.grow grownLater) copiedLater⟩

end

/-! ## Where the copies stand -/

/-- A copy adds the copies of its members and the references to the graph. -/
theorem exists_copy (g : Graph) (naming : Naming) (root : Nat) :
    ∃ nodes references : List Node,
      copy g naming (.node root) =
        (⟨g.nodes ++ nodes.toArray ++ references.toArray⟩, .node g.size) ∧
      (∀ node ∈ references, IsReference g naming node) ∧
      List.Forall₂ (CopiedNode g naming g.size (g.size + (members g naming root).length)
        (members g naming root) (dependencies g (.node root)) references)
        (members g naming root) nodes := by
  obtain ⟨⟨references, grown, areReferences⟩, copied⟩ := copyNodes_spec g naming g.size
    (g.size + (members g naming root).length) (members g naming root)
    (dependencies g (.node root)) [] (members g naming root)
  rw [List.nil_append] at grown
  rw [grown] at copied
  refine ⟨_, references, ?_, areReferences, copied⟩
  rw [copy, ← grown]

/-- A copy takes at least as many containers as it has members. -/
theorem size_copy (g : Graph) (naming : Naming) (root : Nat) :
    g.size + (members g naming root).length ≤ (copy g naming (.node root)).1.size := by
  obtain ⟨nodes, references, made, _, copied⟩ := exists_copy g naming root
  rw [made, copied.length_eq]
  simp only [Graph.size, Array.size_append, List.size_toArray]
  omega

theorem get?_of_lt {g : Graph} {nodes references : List Node} {place : Nat}
    (bound : place < nodes.length) :
    Graph.get? ⟨g.nodes ++ nodes.toArray ++ references.toArray⟩ (g.size + place) =
      nodes[place]? := by
  rw [Graph.get?, Graph.size, Array.getElem?_append_left (by simp; omega),
    Array.getElem?_append_right (by omega)]
  simp

theorem get?_reference {g : Graph} {nodes references : List Node} {place : Nat} :
    Graph.get? ⟨g.nodes ++ nodes.toArray ++ references.toArray⟩
      (g.size + nodes.length + place) = references[place]? := by
  rw [Graph.get?, Graph.size, Array.getElem?_append_right (by simp)]
  simp

/-- Where the copy of a container stands: the copies of its members from the end of the graph on,
and after them the references. -/
theorem copy_spec (g : Graph) (naming : Naming) (root : Nat) :
    ∃ references : List Node,
      (copy g naming (.node root)).2 = .node g.size ∧
      g.Extends (copy g naming (.node root)).1 ∧
      (∀ node ∈ references, IsReference g naming node) ∧
      (∀ place, (copy g naming (.node root)).1.get?
        (g.size + (members g naming root).length + place) = references[place]?) ∧
      ∀ place id, (members g naming root)[place]? = some id →
        ∃ node, (copy g naming (.node root)).1.get? (g.size + place) = some node ∧
          CopiedNode g naming g.size (g.size + (members g naming root).length)
            (members g naming root) (dependencies g (.node root)) references id node := by
  obtain ⟨nodes, references, made, areReferences, copied⟩ := exists_copy g naming root
  have sizes := copied.length_eq
  rw [made]
  refine ⟨references, rfl, ?_, areReferences, ?_, ?_⟩
  · rw [Array.append_assoc]
    exact Graph.extends_append g _
  · intro place
    rw [sizes]
    exact get?_reference
  · intro place id member
    obtain ⟨bound, same⟩ := List.getElem?_eq_some_iff.1 member
    have inside : place < nodes.length := by omega
    refine ⟨nodes[place], ?_, ?_⟩
    · rw [get?_of_lt inside, List.getElem?_eq_getElem inside]
    · rw [← same]
      exact copied.get bound inside

end Typewright.Standalone
