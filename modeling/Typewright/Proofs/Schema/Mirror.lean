import Typewright.Proofs.Schema.Copy
import Typewright.Proofs.Schema.Dependencies
import Typewright.Proofs.Schema.Registry

/-!
# Copies mirror the document

What it means that the stand-alone copy of a schema mirrors the schema (`Standalone.Mirrors`). The
containers of the copy that are no references are the images of the schema's own containers, one for
each; sequences and mappings hold what stands for what their originals hold.

A copy is made in a graph that already extends the document by earlier copies, and later ones extend
it further. `Standalone.exists_copying` says what there is of it in all larger graphs, in terms of
the document alone (`Standalone.Copying`).
-/

namespace Typewright.Standalone

open Schema

/-- The containers that a container leads to along the entries that its copy keeps. A title that is
dropped takes what it holds with it. -/
def keptSuccessors (g : Graph) (nested : List Nat) (id : Nat) : List Nat :=
  match g.get? id with
  | some (.mapping entries) => (keptEntries nested id entries).filterMap fun entry => entry.2.node?
  | some (.sequence items) => items.filterMap Value.node?
  | none => []

/-- The own containers of a schema: itself, and the containers without a name to which it leads by a
path on which no named schema comes after it. -/
def Own (leads : Nat → List Nat) (naming : Naming) (root : Nat) : Nat → Prop :=
  Relation.ReflTransGen (fun a b => b ∈ leads a ∧ naming.isNamed b = false) root

/-- What stands for a value in a copy: a scalar for itself, its image for an own container, and for
a named schema a container of its own that holds the reference to its definition and nothing
else. -/
inductive StandsFor (copied : Graph) (naming : Naming) (own : Nat → Prop) (image : Nat → Nat) :
    Value → Value → Prop
  | scalar (s : Scalar) : StandsFor copied naming own image (.scalar s) (.scalar s)
  | own {id : Nat} (unnamed : naming.isNamed id = false) :
      StandsFor copied naming own image (.node id) (.node (image id))
  | reference {id place : Nat} {name : String} (named : naming.idOf? id = some name)
      (held : copied.get? place = some (.mapping (referenceTo name)))
      (apart : ∀ inside, own inside → image inside ≠ place) :
      StandsFor copied naming own image (.node id) (.node place)

/-- What stands for an entry: the same key with what stands for the value. -/
def EntryStandsFor (copied : Graph) (naming : Naming) (own : Nat → Prop) (image : Nat → Nat)
    (entry copy : Scalar × Value) : Prop :=
  copy.1 = entry.1 ∧ StandsFor copied naming own image entry.2 copy.2

/-- The entries that are no description. -/
def withoutDescription (entries : Entries) : Entries :=
  entries.filter fun entry => entry.1 != .str "description"

/-- The entries that are a description. -/
def onlyDescription (entries : Entries) : Entries :=
  entries.filter fun entry => entry.1 == .str "description"

/-- A copy mirrors a schema of a document. The containers of the copy are the images of the schema's
own containers, each of another, and references besides; what they hold stands, in the same order,
for what their originals hold. The root gets its name as title, and it may get a description. Where
its entries are exempt, it gets none: its own description remains, and only the place of that is left
open. -/
structure Mirrors (g copied : Graph) (naming : Naming) (root : Nat) (leads : Nat → List Nat)
    (exempt : Entries → Prop) (image : Nat → Nat) : Prop where
  injective : ∀ a b, Own leads naming root a → Own leads naming root b → image a = image b → a = b
  reached : ∀ id, Own leads naming root id →
    Relation.ReflTransGen (Search.Leads copied.successors) (image root) (image id)
  nothingElse : ∀ place,
    Relation.ReflTransGen (Search.Leads copied.successors) (image root) place →
      (∃ id, Own leads naming root id ∧ image id = place) ∨
        ∃ id name, naming.idOf? id = some name ∧
          copied.get? place = some (.mapping (referenceTo name)) ∧
          ∀ inside, Own leads naming root inside → image inside ≠ place
  sequence : ∀ id items, Own leads naming root id → g.get? id = some (.sequence items) →
    ∃ copies, copied.get? (image id) = some (.sequence copies) ∧
      List.Forall₂ (StandsFor copied naming (Own leads naming root) image) items copies
  mapping : ∀ id entries, Own leads naming root id → id ≠ root →
    g.get? id = some (.mapping entries) →
    ∃ copies, copied.get? (image id) = some (.mapping copies) ∧
      List.Forall₂ (EntryStandsFor copied naming (Own leads naming root) image)
        (keptEntries (dependencies g (.node root)) id entries) copies
  root : ∀ entries, g.get? root = some (.mapping entries) →
    ∃ name copies, naming.nameOf? root = some name ∧
      copied.get? (image root) = some (.mapping ((.str "title", .str name) :: copies)) ∧
      List.Forall₂ (EntryStandsFor copied naming (Own leads naming root) image)
        (withoutDescription (keptEntries (dependencies g (.node root)) root entries))
        (withoutDescription copies) ∧
      (exempt entries →
        List.Forall₂ (EntryStandsFor copied naming (Own leads naming root) image)
          (onlyDescription (keptEntries (dependencies g (.node root)) root entries))
          (onlyDescription copies)) ∧
      (¬ exempt entries → ∃ added rest, copies = added ++ rest ∧
        (added = [] ∨ ∃ text, naming.descriptionOf? root = some text ∧
          added = [(.str "description", .str text)]) ∧
        List.Forall₂ (EntryStandsFor copied naming (Own leads naming root) image)
          (keptEntries (dependencies g (.node root)) root entries) rest)

/-! ## The members of a copy -/

section

variable {g larger : Graph} {naming : Naming}

/-- Only mappings have names. -/
def NamesMappings (g : Graph) (naming : Naming) : Prop :=
  ∀ id, naming.isNamed id = true → g.isMapping (.node id) = true

theorem namesMappings_of_listed
    (listed : ∀ schema ∈ naming.namedSchemas, g.isMapping (.node schema) = true) :
    NamesMappings g naming :=
  fun id named => listed id (Naming.isNamed_iff.1 named)

theorem namesMappings_of_plain
    (plain : ∀ id, naming.isNamed id = true → defined? g (.node id) = some id) :
    NamesMappings g naming := by
  intro id named
  obtain ⟨_, entries, found, _⟩ := defined?_eq_some (plain id named)
  rw [Graph.isMapping, Graph.entries?_of_get? found]
  rfl

theorem NamesMappings.exists_entries (mappings : NamesMappings g naming) {id : Nat}
    (named : naming.isNamed id = true) : ∃ entries, g.get? id = some (.mapping entries) := by
  obtain ⟨entries, read⟩ := Option.isSome_iff_exists.1 (mappings id named)
  exact ⟨entries, Graph.get?_of_entries? read⟩

theorem lt_size_of_named (mappings : NamesMappings g naming) {id : Nat}
    (named : naming.isNamed id = true) : id < g.size := by
  obtain ⟨_, found⟩ := mappings.exists_entries named
  exact Graph.lt_size_of_get? found

/-- If only mappings have names, a container is replaced exactly if it is named. -/
theorem isReplaced_eq_isNamed (keeps : g.Extends larger) (mappings : NamesMappings g naming)
    (id : Nat) : isReplaced larger naming id = naming.isNamed id := by
  rw [isReplaced]
  cases named : naming.isNamed id with
  | false => simp
  | true =>
    obtain ⟨entries, found⟩ := mappings.exists_entries named
    simp [Graph.isMapping, Graph.entries?_of_get? (keeps.found found)]

theorem lt_size_of_defined {id : Nat} (defined : defined? g (.node id) = some id) :
    id < g.size := by
  obtain ⟨_, _, found, _⟩ := defined?_eq_some defined
  exact Graph.lt_size_of_get? found

theorem own_lt_size (wellFormed : g.WellFormed) {root id : Nat} (bound : root < g.size)
    (own : Own g.successors naming root id) : id < g.size := by
  induction own with
  | refl => exact bound
  | tail _ step _ => exact wellFormed.inside step.1

section

variable (keeps : g.Extends larger) (mappings : NamesMappings g naming)
include keeps mappings

theorem leads_copiedWith_iff {a b : Nat} (bound : a < g.size) :
    Search.Leads (copiedWith larger naming) a b ↔
      b ∈ g.successors a ∧ naming.isNamed b = false := by
  rw [Search.Leads, copiedWith, List.mem_filter, keeps.successors_of_lt bound,
    isReplaced_eq_isNamed keeps mappings]
  simp

variable (wellFormed : g.WellFormed) {root : Nat} (bound : root < g.size)
include wellFormed bound

theorem own_of_copiedWith {id : Nat}
    (path : Relation.ReflTransGen (Search.Leads (copiedWith larger naming)) root id) :
    Own g.successors naming root id := by
  induction path with
  | refl => exact .refl
  | tail _ leads ih =>
    exact ih.tail ((leads_copiedWith_iff keeps mappings (own_lt_size wellFormed bound ih)).1 leads)

theorem bounded_copiedWith : Search.Bounded (copiedWith larger naming) larger.size root := by
  intro a b path leads
  have small := own_lt_size wellFormed bound (own_of_copiedWith keeps mappings wellFormed bound path)
  have inside := wellFormed.inside ((leads_copiedWith_iff keeps mappings small).1 leads).1
  exact inside.trans_le keeps.size_le

/-- In a graph that extends the document, the members of a copy are the schema's own
containers. -/
theorem mem_members_iff {id : Nat} :
    id ∈ members larger naming root ↔ Own g.successors naming root id := by
  rw [members, Search.mem_order_iff (bounded_copiedWith keeps mappings wellFormed bound)]
  refine ⟨own_of_copiedWith keeps mappings wellFormed bound, fun own => ?_⟩
  induction own with
  | refl => exact .refl
  | tail path step ih =>
    have small := own_lt_size wellFormed bound path
    exact ih.tail ((leads_copiedWith_iff keeps mappings small).2 step)

end

theorem mem_successors_of_mem_keptSuccessors {nested : List Nat} {a b : Nat}
    (member : b ∈ keptSuccessors g nested a) : b ∈ g.successors a := by
  rw [keptSuccessors] at member
  rw [Graph.successors]
  split at member
  · next entries found =>
    obtain ⟨entry, kept, same⟩ := List.mem_filterMap.1 member
    rw [found]
    exact List.mem_filterMap.2
      ⟨entry.2, List.mem_map_of_mem (List.mem_of_mem_filter kept), same⟩
  · next items found =>
    rw [found]
    exact member
  · cases member

/-- What is own along kept entries is own along all. -/
theorem own_of_kept {nested : List Nat} {root id : Nat}
    (own : Own (keptSuccessors g nested) naming root id) : Own g.successors naming root id := by
  refine Relation.ReflTransGen.mono (fun a b step => ?_) _ _ own
  exact ⟨mem_successors_of_mem_keptSuccessors step.1, step.2⟩

theorem not_named_of_own {leads : Nat → List Nat} {root id : Nat}
    (own : Own leads naming root id) (other : id ≠ root) : naming.isNamed id = false := by
  rcases own.cases_tail with same | ⟨_, _, step⟩
  · exact absurd same other
  · exact step.2

end

/-! ## A copy in place -/

/-- A copy of a schema in place: where the images of its members and the references stand, and what
the images hold. -/
structure Copying (g copied : Graph) (naming : Naming) (root base : Nat) (members : List Nat)
    (references : List Node) : Prop where
  member_iff : ∀ id, id ∈ members ↔ Own g.successors naming root id
  reference : ∀ place node, references[place]? = some node →
    copied.get? (base + members.length + place) = some node
  image : ∀ id ∈ members, ∃ node, copied.get? (copyOf base members id) = some node ∧
    CopiedNode g naming base (base + members.length) members (dependencies g (.node root))
      references id node

theorem leading_extends {g larger : Graph} (wellFormed : g.WellFormed) (keeps : g.Extends larger)
    (naming : Naming) {id : Nat} {entries : Entries}
    (found : g.get? id = some (.mapping entries)) :
    leading larger naming id entries = leading g naming id entries := by
  have truthy : (entries.get? "description").map larger.isTruthy =
      (entries.get? "description").map g.isTruthy := by
    cases held : entries.get? "description" with
    | none => rfl
    | some v =>
      have inside := wellFormed.inside_of_mem found (Entries.mem_values_of_get? held)
      cases v with
      | scalar s => rfl
      | node child =>
        simp only [Option.map_some, Graph.isTruthy, keeps.get?_of_lt (inside child rfl)]
  rw [leading, leading, truthy]

section

variable {g larger : Graph} {naming : Naming} (keeps : g.Extends larger)
variable (mappings : NamesMappings g naming)
include keeps mappings

theorem isReplaced_extends : isReplaced larger naming = isReplaced g naming := by
  funext id
  rw [isReplaced_eq_isNamed keeps mappings,
    isReplaced_eq_isNamed (Graph.Extends.refl g) mappings]

/-- What is copied in a graph that extends the document is copied in the document. -/
theorem CopiedValue.of_extends {base start : Nat} {members : List Nat} {references : List Node}
    {v copy : Value} (copied : CopiedValue larger naming base start members references v copy) :
    CopiedValue g naming base start members references v copy := by
  have same := isReplaced_extends keeps mappings
  cases copied with
  | scalar s => exact .scalar s
  | member kept => exact .member (by rwa [← same])
  | reference gone held => exact .reference (by rwa [← same]) held

theorem CopiedNode.of_extends (wellFormed : g.WellFormed) {root : Nat}
    (defined : defined? g (.node root) = some root) {base start : Nat} {members : List Nat}
    {references : List Node} {id : Nat} {node : Node} (small : id < g.size)
    (copied : CopiedNode larger naming base start members (dependencies larger (.node root))
      references id node) :
    CopiedNode g naming base start members (dependencies g (.node root)) references id node := by
  cases copied with
  | missing absent =>
    obtain ⟨other, held⟩ := Graph.exists_get?_of_lt small
    rw [keeps.found held] at absent
    cases absent
  | sequence held all =>
    rw [keeps.get?_of_lt small] at held
    exact .sequence held (all.imp fun _ _ one => one.of_extends keeps mappings)
  | mapping held all =>
    have nested : ∀ id, (dependencies larger (.node root)).contains id =
        (dependencies g (.node root)).contains id := by
      intro id
      rw [Bool.eq_iff_iff, List.contains_iff_mem, List.contains_iff_mem]
      exact mem_dependencies_extends keeps wellFormed defined
    rw [keeps.get?_of_lt small] at held
    rw [leading_extends wellFormed keeps naming held]
    refine .mapping held ?_
    rw [keptEntries] at all ⊢
    simp only [nested] at all
    exact all.imp fun _ _ one => ⟨one.1, one.2.of_extends keeps mappings⟩

end

/-- What stands in a graph from a place on fits into it. -/
theorem length_le_of_get? {g : Graph} {start : Nat} {nodes : List Node} (begins : start ≤ g.size)
    (places : ∀ place, g.get? (start + place) = nodes[place]?) :
    start + nodes.length ≤ g.size := by
  obtain ⟨room, size⟩ := Nat.exists_eq_add_of_le begins
  by_contra short
  have inside : room < nodes.length := by omega
  have last := places room
  rw [List.getElem?_eq_getElem inside, ← size] at last
  have within := Graph.lt_size_of_get? last
  omega

/-- A copy made in a graph that extends the document stays in place in every graph that extends
the result. -/
theorem exists_copying {g h copied : Graph} {naming : Naming} {root : Nat}
    (wellFormed : g.WellFormed) (keeps : g.Extends h)
    (later : (copy h naming (.node root)).1.Extends copied) (mappings : NamesMappings g naming)
    (defined : defined? g (.node root) = some root) :
    ∃ references, Copying g copied naming root h.size (members h naming root) references ∧
      (∀ node ∈ references, IsReference g naming node) ∧
      h.size + (members h naming root).length + references.length ≤
        (copy h naming (.node root)).1.size := by
  have bound := lt_size_of_defined defined
  obtain ⟨references, _, _, areReferences, places, images⟩ := copy_spec h naming root
  have inMembers : ∀ id, id ∈ members h naming root ↔ Own g.successors naming root id :=
    fun id => mem_members_iff keeps mappings wellFormed bound
  refine ⟨references, ⟨inMembers, fun place node held => later.found ?_, fun id member => ?_⟩,
    fun node member => ?_, length_le_of_get? (size_copy h naming root) places⟩
  · rw [places, held]
  · obtain ⟨node, found, one⟩ := images ((members h naming root).idxOf id) id
      (List.getElem?_idxOf member)
    have small := own_lt_size wellFormed bound ((inMembers id).1 member)
    exact ⟨node, later.found found, one.of_extends keeps mappings wellFormed defined small⟩
  · obtain ⟨id, gone, shape⟩ := areReferences node member
    exact ⟨id, by rwa [← isReplaced_extends keeps mappings], shape⟩

end Typewright.Standalone
