import Typewright.Proofs.Schema.Definitions

/-!
# Definitions stand apart

Each copy of a named schema takes a stretch of the graph of its own, and what a definition leads to
lies in its stretch (`Standalone.exists_stretch`). So no container belongs to two definitions, and
only references go from one definition to another. `Standalone.Apart` says this of a list of
definitions, in terms of what the list holds alone, so that it does not depend on their order
(`Standalone.Apart.perm`).
-/

namespace Typewright

/-- No container inside another has an entry for a reference. -/
def Schema.HoldsNoReference (g : Graph) : Prop :=
  ∀ id, ∀ child ∈ g.successors id, g.hasField refKey child = false

namespace Standalone

open Schema Text

/-- A container leads to another, or is the same. -/
abbrev Within (g : Graph) : Nat → Nat → Prop :=
  Relation.ReflTransGen (Search.Leads g.successors)

theorem lt_size_of_within {g : Graph} (closed : g.Closed) {root id : Nat} (bound : root < g.size)
    (path : Within g root id) : id < g.size := by
  rcases path.cases_tail with same | ⟨before, _, leads⟩
  · rw [same]
    exact bound
  · exact closed before id leads

/-! ## Where copies lead -/

section

variable {g : Graph} {naming : Naming} {base start : Nat} {members nested : List Nat}
variable {references : List Node}

/-- What stands for a container in a copy is its copy or a reference. -/
theorem CopiedValue.cases_node {v : Value} {child : Nat}
    (one : CopiedValue g naming base start members references v (.node child)) :
    (∃ id, v = .node id ∧ isReplaced g naming id = false ∧ child = copyOf base members id) ∨
      ∃ place < references.length, child = start + place := by
  cases one with
  | member kept => exact Or.inl ⟨_, rfl, kept, rfl⟩
  | reference _ held => exact Or.inr ⟨_, (List.getElem?_eq_some_iff.1 held).1, rfl⟩

/-- The copy of a container leads to the copies of what the container leads to, and to
references. -/
theorem CopiedNode.cases_leads {id child : Nat} {node : Node}
    (one : CopiedNode g naming base start members nested references id node)
    (leads : child ∈ node.successors) :
    (∃ next ∈ g.successors id, isReplaced g naming next = false ∧
      child = copyOf base members next) ∨
      ∃ place < references.length, child = start + place := by
  have held := Node.mem_successors_iff.1 leads
  have original : ∀ {node : Node} {v : Value}, g.get? id = some node → v ∈ node.values →
      CopiedValue g naming base start members references v (.node child) →
      (∃ next ∈ g.successors id, isReplaced g naming next = false ∧
        child = copyOf base members next) ∨
        ∃ place < references.length, child = start + place := by
    intro node v found present copied
    refine copied.cases_node.imp_left ?_
    intro isMember
    obtain ⟨next, rfl, kept, same⟩ := isMember
    exact ⟨next, Graph.mem_successors_iff.2 ⟨node, found, Node.mem_successors_iff.2 present⟩,
      kept, same⟩
  cases one with
  | missing absent => cases held
  | sequence found all =>
    obtain ⟨v, present, copied⟩ := exists_original_of_mem all held
    exact original found present copied
  | mapping found all =>
    rcases Entries.mem_values_foldl_put _ held with lead | own
    · cases scalar_of_mem_leading lead
    · obtain ⟨copy, isCopy, same⟩ := List.mem_map.1 own
      obtain ⟨entry, kept, copied⟩ := exists_original_of_mem all isCopy
      have isOriginal : entry.2 ∈ (Node.mapping _).values :=
        List.mem_map_of_mem (List.mem_of_mem_filter kept)
      have copiedValue := copied.2
      rw [same] at copiedValue
      exact original found isOriginal copiedValue

/-- The copy of a container without references holds none. -/
theorem CopiedNode.no_reference {id : Nat} {copies : Entries}
    (one : CopiedNode g naming base start members nested references id (.mapping copies))
    (plain : g.hasField refKey id = false) : copies.get? refKey = none := by
  cases one with
  | @mapping entries _ found all =>
    rw [Graph.hasField, Graph.field?, Graph.entries?_of_get? found] at plain
    rw [Entries.get?_foldl_put_of_ne _ fun copy member key => ?_, get?_leading_refKey]
    obtain ⟨entry, present, same⟩ := keys_of_copiedEntries all member
    exact Entries.has_eq_false_iff.1 plain entry (List.mem_of_mem_filter present)
      (by rw [same, key])

end

/-! ## Copies leave a graph closed -/

/-- What a member of a copy leads to and is not replaced is a member. -/
theorem mem_members_of_leads {g : Graph} (closed : g.Closed) {naming : Naming} {root id next : Nat}
    (member : id ∈ members g naming root) (leads : next ∈ g.successors id)
    (kept : isReplaced g naming next = false) : next ∈ members g naming root := by
  have bounded : Search.Bounded (copiedWith g naming) g.size root :=
    fun a b _ leads => closed a b (List.mem_of_mem_filter leads)
  rw [members, Search.mem_order_iff bounded] at member ⊢
  exact member.tail (List.mem_filter.2 ⟨leads, by simp [kept]⟩)

/-- The copy of a member leads to copies of members, and to references. -/
theorem CopiedNode.leads_lt {g : Graph} (closed : g.Closed) {naming : Naming} {root id child : Nat}
    {nested : List Nat} {references : List Node} {node : Node}
    (member : id ∈ members g naming root)
    (one : CopiedNode g naming g.size (g.size + (members g naming root).length)
      (members g naming root) nested references id node) (leads : child ∈ node.successors) :
    child < g.size + (members g naming root).length + references.length := by
  rcases one.cases_leads leads with ⟨next, isNext, kept, rfl⟩ | ⟨place, bound, rfl⟩
  · have before : copyOf g.size (members g naming root) next <
        g.size + (members g naming root).length :=
      copyOf_lt (mem_members_of_leads closed member isNext kept)
    omega
  · omega

theorem closed_copy {g : Graph} (closed : g.Closed) (naming : Naming) (root : Nat) :
    (copy g naming (.node root)).1.Closed := by
  obtain ⟨nodes, references, made, areReferences, copied⟩ := exists_copy g naming root
  have sizes := copied.length_eq
  obtain ⟨larger, same⟩ : ∃ larger : Graph,
      larger = ⟨g.nodes ++ nodes.toArray ++ references.toArray⟩ := ⟨_, rfl⟩
  have size : larger.size = g.size + nodes.length + references.length := by
    simp [same, Graph.size, Nat.add_assoc]
  have keeps : g.Extends larger := by
    rw [same, Array.append_assoc]
    exact Graph.extends_append g _
  rw [made, ← same]
  change larger.Closed
  intro id child leads
  obtain ⟨node, found, held⟩ := Graph.mem_successors_iff.1 leads
  by_cases old : id < g.size
  · rw [keeps.get?_of_lt old] at found
    exact (closed id child (Graph.mem_successors_iff.2 ⟨node, found, held⟩)).trans_le
      keeps.size_le
  obtain ⟨place, rfl⟩ := Nat.exists_eq_add_of_le (Nat.le_of_not_lt old)
  by_cases inside : place < nodes.length
  · -- the copy of a member
    rw [same, get?_of_lt inside, List.getElem?_eq_getElem inside, Option.some.injEq] at found
    have bound : place < (members g naming root).length := by omega
    have one := copied.get bound inside
    rw [List.get_eq_getElem, List.get_eq_getElem, found] at one
    have limit := one.leads_lt closed (List.getElem_mem bound) held
    omega
  · -- a reference, which leads nowhere
    obtain ⟨other, rfl⟩ := Nat.exists_eq_add_of_le (Nat.le_of_not_lt inside)
    rw [same, ← Nat.add_assoc, get?_reference] at found
    obtain ⟨_, _, shape⟩ := areReferences node (List.mem_of_getElem? found)
    rw [shape] at held
    cases held

theorem closed_copyAll {g : Graph} (closed : g.Closed) (naming : Naming) (schemas : List Nat) :
    (copyAll naming g schemas).1.Closed := by
  induction schemas generalizing g with
  | nil => exact closed
  | cons schema schemas ih => exact ih (closed_copy closed naming schema)

/-- Adding definitions leaves a graph closed. -/
theorem closed_definitions {g : Graph} (closed : g.Closed) (naming : Naming) :
    (definitions g naming).1.Closed :=
  closed_copyAll closed naming naming.namedSchemas

/-! ## The stretch of a copy -/

section

variable {g copied : Graph} {naming : Naming} {root base : Nat} {members : List Nat}
variable {references : List Node}

/-- A place of a copy: that of the copy of a member, or of a reference. -/
def IsPart (base : Nat) (members : List Nat) (references : List Node) (place : Nat) : Prop :=
  (∃ id ∈ members, place = copyOf base members id) ∨
    ∃ k < references.length, place = base + members.length + k

theorem IsPart.bounds {place : Nat} (part : IsPart base members references place) :
    base ≤ place ∧ place < base + members.length + references.length := by
  rcases part with ⟨id, member, rfl⟩ | ⟨k, bound, rfl⟩
  · have before : copyOf base members id < base + members.length := copyOf_lt member
    exact ⟨Nat.le_add_right _ _, by omega⟩
  · omega

variable (copying : Copying g copied naming root base members references)
variable (areReferences : ∀ node ∈ references, IsReference g naming node)
include copying areReferences

/-- The containers of a copy are copies of members, and references. -/
theorem IsPart.cases {place : Nat} {node : Node} (part : IsPart base members references place)
    (found : copied.get? place = some node) :
    (∃ id ∈ members, place = copyOf base members id ∧
      CopiedNode g naming base (base + members.length) members (dependencies g (.node root))
        references id node) ∨ IsReference g naming node := by
  rcases part with ⟨id, member, rfl⟩ | ⟨k, bound, rfl⟩
  · obtain ⟨other, held, one⟩ := copying.image id member
    rw [held, Option.some.injEq] at found
    rw [found] at one
    exact Or.inl ⟨id, member, rfl, one⟩
  · have held := copying.reference k _ (List.getElem?_eq_getElem bound)
    rw [held, Option.some.injEq] at found
    rw [← found]
    exact Or.inr (areReferences _ (List.getElem_mem bound))

variable (plain : ∀ id, naming.isNamed id = true → defined? g (.node id) = some id)
include plain

/-- A copy leads nowhere else. -/
theorem IsPart.of_within {first place : Nat} (part : IsPart base members references first)
    (path : Within copied first place) : IsPart base members references place := by
  induction path with
  | refl => exact part
  | @tail before next _ leads ih =>
    obtain ⟨node, found, held⟩ := Graph.mem_successors_iff.1 leads
    rcases ih.cases copying areReferences found with ⟨id, member, _, one⟩ | ⟨_, _, shape⟩
    · rcases one.cases_leads held with ⟨inside, isNext, kept, same⟩ | reference
      · rw [isReplaced_eq_isNamed (Graph.Extends.refl g) (namesMappings_of_plain plain)] at kept
        have own := ((copying.member_iff id).1 member).tail ⟨isNext, kept⟩
        exact Or.inl ⟨inside, (copying.member_iff inside).2 own, same⟩
      · exact Or.inr reference
    · rw [shape] at held
      cases held

end

/-! ## Definitions apart -/

/-- Definitions in a graph that refer to each other alone. The root of each is a mapping with a name
as title, which the id goes by, and no reference; and the references in what a definition leads to
are to definitions. -/
structure Linked (g : Graph) (definitions : List (String × Value)) : Prop where
  closed : g.Closed
  ids : (definitions.map (·.1)).Nodup
  root : ∀ {id v}, (id, v) ∈ definitions → ∃ place entries name, v = .node place ∧
    g.get? place = some (.mapping entries) ∧ entries.get? "title" = some (.str name) ∧
    entries.get? refKey = none ∧ Naming.IsName name ∧ id = lower name ∧
    lower name ≠ lower Api.topLevelTitle
  reference : ∀ {i p id entries ref}, (i, .node p) ∈ definitions → Within g p id →
    g.get? id = some (.mapping entries) → entries.get? refKey = some ref →
    ∃ j v, ref = .str (definitionsPointer ++ j) ∧ (j, v) ∈ definitions

/-- Definitions that besides have nothing in common, and in which only the roots have texts as
titles. -/
structure Apart (g : Graph) (definitions : List (String × Value)) : Prop
    extends Linked g definitions where
  disjoint : ∀ {i j p q id}, (i, .node p) ∈ definitions → (j, .node q) ∈ definitions →
    Within g p id → Within g q id → p = q
  untitled : ∀ {i p id entries text}, (i, .node p) ∈ definitions → Within g p id →
    g.get? id = some (.mapping entries) → entries.get? "title" = some (.str text) → id = p

/-- In what definitions lead to, only their roots have texts as titles. -/
def OnlyRootsTitled (g : Graph) (definitions : List (String × Value)) : Prop :=
  ∀ i p, (i, .node p) ∈ definitions → ∀ id entries text, Within g p id →
    g.get? id = some (.mapping entries) → entries.get? "title" = some (.str text) →
    ∃ j, (j, .node id) ∈ definitions

/-- Definitions stand apart in any order. -/
theorem Apart.perm {g : Graph} {definitions listed : List (String × Value)}
    (apart : Apart g definitions) (same : listed.Perm definitions) : Apart g listed where
  closed := apart.closed
  ids := (same.map _).nodup_iff.2 apart.ids
  root member := apart.root (same.mem_iff.1 member)
  disjoint first second := apart.disjoint (same.mem_iff.1 first) (same.mem_iff.1 second)
  reference member path found held := by
    obtain ⟨j, v, text, listed⟩ := apart.reference (same.mem_iff.1 member) path found held
    exact ⟨j, v, text, same.mem_iff.2 listed⟩
  untitled member := apart.untitled (same.mem_iff.1 member)

section

variable {g : Graph} {words : List String} {naming : Naming}
variable (plain : ∀ id, naming.isNamed id = true → defined? g (.node id) = some id)
include plain

section

variable {root base stop : Nat} {members : List Nat} {references : List Node}
variable (stretch : Stretch g naming root base stop members references)
include stretch

theorem Stretch.isPart {id : Nat} (path : Within (definitions g naming).1 base id) :
    IsPart base members references id :=
  IsPart.of_within stretch.copying stretch.areReferences plain
    (Or.inl ⟨root, (stretch.copying.member_iff root).2 .refl, stretch.start.symm⟩) path

/-- What a definition leads to lies in its stretch. -/
theorem Stretch.bounds {id : Nat} (path : Within (definitions g naming).1 base id) :
    base ≤ id ∧ id < stop := by
  have bounds := (stretch.isPart plain path).bounds
  have room := stretch.room
  omega

/-- If no schema in a document is a reference, the references in a definition are those that stand
for named schemas. -/
theorem Stretch.reference (named : naming.isNamed root = true) (holdsNone : HoldsNoReference g)
    {id : Nat} {entries : Entries} {ref : Value} (path : Within (definitions g naming).1 base id)
    (found : (definitions g naming).1.get? id = some (.mapping entries))
    (held : entries.get? refKey = some ref) :
    ∃ schema, naming.isNamed schema = true ∧
      entries = referenceTo ((naming.idOf? schema).getD "") := by
  rcases (stretch.isPart plain path).cases stretch.copying stretch.areReferences found with
    ⟨own, member, _, one⟩ | ⟨schema, replaced, shape⟩
  · have noRef : g.hasField refKey own = false := by
      rcases ((stretch.copying.member_iff own).1 member).cases_tail with same | ⟨before, _, step⟩
      · obtain ⟨_, entries, found, noRef⟩ := defined?_eq_some (plain root named)
        rw [same, Graph.hasField, Graph.field?, Graph.entries?_of_get? found]
        exact noRef
      · exact holdsNone before own step.1
    rw [one.no_reference noRef] at held
    cases held
  · rw [isReplaced_eq_isNamed (Graph.Extends.refl g) (namesMappings_of_plain plain)] at replaced
    exact ⟨schema, replaced, Node.mapping.inj shape⟩

end

variable (wellFormed : g.WellFormed) (consistent : Naming.Consistent words naming)
include consistent

/-- Each definition is that of a name, which is the title of its root. -/
theorem exists_name {id : String} {v : Value} (member : (id, v) ∈ (definitions g naming).2) :
    ∃ schema name place entries, naming.nameOf? schema = some name ∧ id = lower name ∧
      v = .node place ∧ (definitions g naming).1.get? place = some (.mapping entries) ∧
      entries.get? "title" = some (.str name) ∧ entries.has refKey = false := by
  have isId : id ∈ (definitions g naming).2.map (·.1) := List.mem_map_of_mem member
  rw [ids_definitions consistent] at isId
  obtain ⟨⟨schema, name⟩, isEntry, rfl⟩ := List.mem_map.1 isId
  have named := consistent.nameOf?_eq_some_iff.2 isEntry
  have isNamed : naming.isNamed schema = true := by rw [Naming.isNamed, named]; rfl
  obtain ⟨place, entries, listed, found, title, noRef⟩ :=
    exists_definition (plain schema isNamed) named
  have same := List.inj_on_of_nodup_map (nodup_ids_definitions consistent g) member listed rfl
  exact ⟨schema, name, place, entries, named, rfl, (Prod.mk.inj same).2, found, title, noRef⟩

include wellFormed

theorem exists_stretch_of_definition {i : String} {p : Nat}
    (member : (i, .node p) ∈ (definitions g naming).2) :
    ∃ root stop members references, naming.isNamed root = true ∧
      Stretch g naming root p stop members references := by
  obtain ⟨root, name, _, _, named, rfl, _⟩ := exists_name plain consistent member
  have isNamed : naming.isNamed root = true := by rw [Naming.isNamed, named]; rfl
  obtain ⟨base, stop, members, references, stretch⟩ := exists_stretch wellFormed plain isNamed
  have isId : (naming.idOf? root).getD "" = lower name := by rw [Naming.idOf?, named]; rfl
  have listed := stretch.listed
  rw [isId] at listed
  have same := List.inj_on_of_nodup_map (nodup_ids_definitions consistent g) member listed rfl
  rw [Value.node.inj (Prod.mk.inj same).2]
  exact ⟨root, stop, members, references, isNamed, stretch⟩

/-- Definitions have nothing in common. -/
theorem disjoint_definitions {i j : String} {p q id : Nat}
    (first : (i, .node p) ∈ (definitions g naming).2)
    (second : (j, .node q) ∈ (definitions g naming).2)
    (pathFirst : Within (definitions g naming).1 p id)
    (pathSecond : Within (definitions g naming).1 q id) : p = q := by
  obtain ⟨_, stop, _, _, _, stretch⟩ :=
    exists_stretch_of_definition plain wellFormed consistent first
  obtain ⟨_, stopOther, _, _, _, other⟩ :=
    exists_stretch_of_definition plain wellFormed consistent second
  have bounds := stretch.bounds plain pathFirst
  have boundsOther := other.bounds plain pathSecond
  -- the one that begins later begins within the other
  rcases Nat.le_total p q with before | after
  · exact (stretch.alone j q second before (by omega)).symm
  · exact other.alone i p first after (by omega)

/-- The definitions of a document without references refer to each other alone, if the title of the
root of all definitions is reserved. -/
theorem linked_definitions (holdsNone : HoldsNoReference g)
    (reserved : lower Api.topLevelTitle ∈ words) :
    Linked (definitions g naming).1 (definitions g naming).2 where
  closed := closed_definitions wellFormed.closed naming
  ids := nodup_ids_definitions consistent g
  root := by
    intro id v member
    obtain ⟨schema, name, place, entries, named, isId, isNode, found, title, noRef⟩ :=
      exists_name plain consistent member
    have isEntry := Naming.mem_names_of_nameOf? named
    exact ⟨place, entries, name, isNode, found, title, Entries.get?_eq_none_iff_not_has.2 noRef,
      consistent.isName _ isEntry, isId,
      fun same => consistent.unreserved _ isEntry (same ▸ reserved)⟩
  reference := by
    intro i p id entries ref member path found held
    obtain ⟨root, _, _, _, isRoot, stretch⟩ :=
      exists_stretch_of_definition plain wellFormed consistent member
    obtain ⟨schema, isNamed, shape⟩ := stretch.reference plain isRoot holdsNone path found held
    obtain ⟨name, named⟩ := Option.isSome_iff_exists.1 isNamed
    obtain ⟨place, _, listed, _⟩ := exists_definition (plain schema isNamed) named
    rw [shape, referenceTo, Entries.get?_cons, if_pos rfl, Naming.idOf?, named] at held
    exact ⟨lower name, .node place, (Option.some.inj held).symm, listed⟩

/-- They stand apart if only their roots have texts as titles. -/
theorem apart_definitions (holdsNone : HoldsNoReference g)
    (reserved : lower Api.topLevelTitle ∈ words)
    (untitled : OnlyRootsTitled (definitions g naming).1 (definitions g naming).2) :
    Apart (definitions g naming).1 (definitions g naming).2 where
  toLinked := linked_definitions plain wellFormed consistent holdsNone reserved
  disjoint := disjoint_definitions plain wellFormed consistent
  untitled := by
    intro i p id entries text member path found held
    obtain ⟨j, listed⟩ := untitled i p member id entries text path found held
    exact (disjoint_definitions plain wellFormed consistent member listed path .refl).symm

end

end Standalone

end Typewright
