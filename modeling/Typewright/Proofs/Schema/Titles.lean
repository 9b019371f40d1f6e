import Typewright.Proofs.Schema.Definitions
import Typewright.Proofs.Schema.Originals

/-!
# Titles of copies

The schemas that a copy shows are found by a walk of the copy, while the titles to drop were chosen
by a walk of the document. The two walks agree: what the first one visits is the image of something
that the second one visits (`Standalone.Placed.exists_original_dependency`). So inside a copy only
the root has a title, and every entry that is not the title of a structural dependency is there
(`Standalone.titles_copied`).
-/

namespace Typewright.Standalone

open Schema

/-- The titles in the copy of a schema. Of the schemas that the copy depends on only its root has a
title, which is the name of the schema. Every entry of an own container is in the image, unless it
is the title of a structural dependency; the image is a part of the copy. -/
structure TitledOnce (g copied : Graph) (naming : Naming) (root : Nat) (image : Nat → Nat) :
    Prop where
  named : ∃ name, naming.nameOf? root = some name ∧
    image root ∈ dependencies copied (.node (image root)) ∧
    copied.field? (.node (image root)) "title" = some (.str name)
  nested : ∀ place ∈ dependencies copied (.node (image root)), place ≠ image root →
    copied.field? (.node place) "title" = none
  kept : ∀ id entries, KeptOwn g naming root id → g.get? id = some (.mapping entries) →
    Relation.ReflTransGen (Search.Leads copied.successors) (image root) (image id) ∧
      ∃ copies, copied.get? (image id) = some (.mapping copies) ∧
        ∀ entry ∈ entries, (entry.1 = .str "title" → id ∉ dependencies g (.node root)) →
          ∃ copy ∈ copies, EntryStandsFor copied naming (KeptOwn g naming root) image entry copy

section

variable {g copied : Graph} {naming : Naming} {root : Nat} {image : Nat → Nat}

theorem not_has_refKey_of_placed (placed : Placed g copied naming root image) {id : Nat}
    (own : KeptOwn g naming root id) {copies : Entries}
    (held : copied.get? (image id) = some (.mapping copies)) (plain : copies.has refKey = false) :
    ∃ entries, g.get? id = some (.mapping entries) ∧ entries.has refKey = false := by
  rcases placed.images id own with ⟨_, _, _, there, _⟩ | ⟨entries, _, found, there, kept, _⟩
  · rw [held] at there
    cases there
  · rw [held] at there
    cases there
    refine ⟨entries, found, Entries.has_eq_false_iff.2 fun entry member key => ?_⟩
    obtain ⟨copy, present, same⟩ := kept entry member (by rw [key]; decide) (by rw [key]; decide)
    exact Entries.has_eq_false_iff.1 plain copy present (same.trans key)

/-- What a copy depends on are images of own containers that the schema depends on. -/
theorem Placed.exists_original_dependency (placed : Placed g copied naming root image) {place : Nat}
    (path : Relation.ReflTransGen (Search.Leads (definedChildren copied)) (image root) place) :
    ∃ id, KeptOwn g naming root id ∧ id ∈ dependencies g (.node root) ∧ image id = place := by
  have defined := placed.plain root placed.named
  induction path with
  | refl => exact ⟨root, .refl, (mem_dependencies_iff defined).2 .refl, rfl⟩
  | @tail before next _ leads ih =>
    obtain ⟨id, own, nested, rfl⟩ := ih
    rw [Search.Leads, definedChildren] at leads
    cases read : copied.entries? (.node (image id)) with
    | none =>
      rw [read] at leads
      cases leads
    | some copies =>
      rw [read] at leads
      obtain ⟨w, child, isDefined⟩ := List.mem_filterMap.1 leads
      obtain ⟨rfl, inside, held, plain⟩ := defined?_eq_some isDefined
      have there := Graph.get?_of_entries? read
      rcases placed.images id own with ⟨_, _, _, isList, _⟩ | ⟨entries, _, found, _, _, _⟩
      · rw [there] at isList
        cases isList
      rcases placed.exists_original_child own found there child with ⟨s, isScalar⟩ |
        ⟨v, original, hasCopy⟩
      · cases isScalar
      rcases hasCopy.stands.cases_node with ⟨c, rfl, unnamed, rfl⟩ | ⟨_, name, _, isRef, _⟩
      · have ownChild := hasCopy.own c rfl unnamed
        obtain ⟨originals, here, alsoPlain⟩ :=
          not_has_refKey_of_placed placed ownChild held plain
        refine ⟨c, ownChild, ?_, rfl⟩
        rw [mem_dependencies_iff defined] at nested ⊢
        refine nested.tail ?_
        rw [Search.Leads, definedChildren_of_get? found]
        exact List.mem_filterMap.2 ⟨_, original, defined?_of_get? here alsoPlain⟩
      · -- a reference is no defined schema
        rw [held] at isRef
        cases isRef
        cases plain

end

theorem mem_keptEntries {nested : List Nat} {id : Nat} {entries : Entries}
    {entry : Scalar × Value} (member : entry ∈ entries)
    (kept : entry.1 = .str "title" → id ∉ nested) : entry ∈ keptEntries nested id entries := by
  refine List.mem_filter.2 ⟨member, ?_⟩
  by_cases title : entry.1 = .str "title"
  · simp [kept title]
  · simp [title]

section

variable {g copied : Graph} {naming : Naming} {root base : Nat} {members : List Nat}
variable {references : List Node}
variable (copying : Copying g copied naming root base members references)
variable (wellFormed : g.WellFormed) (mappings : NamesMappings g naming)
variable (defined : defined? g (.node root) = some root) (named : naming.isNamed root = true)
include copying wellFormed mappings defined named

/-- The image of the root is a schema with the name as its title. -/
theorem titled_image_root : ∃ name entries, naming.nameOf? root = some name ∧
    copied.get? (copyOf base members root) = some (.mapping entries) ∧
    entries.get? "title" = some (.str name) ∧ entries.has refKey = false := by
  obtain ⟨_, entries, found, plain⟩ := defined?_eq_some defined
  obtain ⟨name, copies, isName, held, all, _⟩ :=
    image_root copying mappings wellFormed defined named found
  refine ⟨name, _, isName, held, by rw [Entries.get?_cons, if_pos rfl],
    Entries.has_eq_false_iff.2 fun copy member key => ?_⟩
  rcases List.mem_cons.1 member with rfl | later
  · simp [refKey] at key
  · have copiedKey : copy ∈ withoutDescription copies :=
      List.mem_filter.2 ⟨later, by rw [key]; decide⟩
    obtain ⟨entry, present, same, _⟩ := exists_original_of_mem all copiedKey
    have inEntries : entry ∈ entries := List.mem_of_mem_filter (List.mem_of_mem_filter present)
    exact Entries.has_eq_false_iff.1 plain entry inEntries (by rw [← same, key])

/-- The image of a structural dependency other than the root has no title. -/
theorem untitled_image {id : Nat} (own : KeptOwn g naming root id)
    (nested : id ∈ dependencies g (.node root)) (other : id ≠ root) :
    copied.field? (.node (copyOf base members id)) "title" = none := by
  have bound := own_lt_size wellFormed (lt_size_of_defined defined) (own_of_kept own)
  have mirrors := mirrors_of_copying copying mappings wellFormed defined named
  obtain ⟨node, found⟩ := Graph.exists_get?_of_lt bound
  cases node with
  | sequence items =>
    obtain ⟨copies, held, _⟩ := mirrors.sequence id items own found
    rw [Graph.field?, Graph.entries?, Graph.node?, held]
    rfl
  | mapping entries =>
    obtain ⟨copies, held, all⟩ := mirrors.mapping id entries own other found
    rw [Graph.field?_of_get? held]
    exact Entries.get?_eq_none_iff.2
      (keys_ne_of_entriesStandFor all (untitled_of_nested nested entries))

/-- Every entry that a copy keeps has its copy in the image. -/
theorem entries_image {id : Nat} {entries : Entries} (own : KeptOwn g naming root id)
    (found : g.get? id = some (.mapping entries)) :
    ∃ copies, copied.get? (copyOf base members id) = some (.mapping copies) ∧
      ∀ entry ∈ keptEntries (dependencies g (.node root)) id entries, ∃ copy ∈ copies,
        EntryStandsFor copied naming (KeptOwn g naming root) (copyOf base members) entry copy := by
  obtain ⟨copies, held, all⟩ := image_mapping copying mappings own found
  refine ⟨_, held, fun entry kept => ?_⟩
  obtain ⟨copy, present, one⟩ := exists_partner_of_mem all kept
  exact ⟨copy, mem_image wellFormed defined named own found all present, one⟩

end

/-- A copy in place has the title of its schema, and no others of structural dependencies. -/
theorem titledOnce_of_copying {g copied : Graph} {naming : Naming} {root base : Nat}
    {members : List Nat} {references : List Node}
    (copying : Copying g copied naming root base members references) (wellFormed : g.WellFormed)
    (plain : ∀ id, naming.isNamed id = true → defined? g (.node id) = some id)
    (named : naming.isNamed root = true) :
    TitledOnce g copied naming root (copyOf base members) := by
  have mappings := namesMappings_of_plain plain
  have defined := plain root named
  have mirrors := mirrors_of_copying copying mappings wellFormed defined named
  have placed := placed_of_mirrors wellFormed plain named mirrors (Graph.Extends.refl copied)
  obtain ⟨name, entries, isName, held, title, unreferring⟩ :=
    titled_image_root copying wellFormed mappings defined named
  have isDefined := defined?_of_get? held unreferring
  refine ⟨⟨name, isName, (mem_dependencies_iff isDefined).2 .refl, ?_⟩, ?_, ?_⟩
  · rw [Graph.field?_of_get? held, title]
  · intro place visited other
    obtain ⟨id, own, nested, rfl⟩ :=
      placed.exists_original_dependency ((mem_dependencies_iff isDefined).1 visited)
    exact untitled_image copying wellFormed mappings defined named own nested
      fun same => other (congrArg _ same)
  · intro id entries own found
    obtain ⟨copies, there, all⟩ :=
      entries_image copying wellFormed mappings defined named own found
    exact ⟨mirrors.reached id own, copies, there,
      fun entry member kept => all entry (mem_keptEntries member kept)⟩

/-- In the copy of a named schema nested titles are dropped, and nothing else is.

The document is any well formed graph, with sharing and cycles, and the names are any if the named
schemas are mappings without a reference. -/
theorem titles_copied {g : Graph} {naming : Naming} {root : Nat} (wellFormed : g.WellFormed)
    (plain : ∀ schema ∈ naming.namedSchemas, defined? g (.node schema) = some schema)
    (member : root ∈ naming.namedSchemas) :
    (copy g naming (.node root)).2 = .node (copyOf g.size (members g naming root) root) ∧
      TitledOnce g (copy g naming (.node root)).1 naming root
        (copyOf g.size (members g naming root)) := by
  have every : ∀ id, naming.isNamed id = true → defined? g (.node id) = some id :=
    fun id named => plain id (Naming.isNamed_iff.1 named)
  obtain ⟨references, copying, _⟩ := exists_copying wellFormed (Graph.Extends.refl g)
    (Graph.Extends.refl _) (namesMappings_of_plain every) (plain root member)
  obtain ⟨_, isNode, _⟩ := copy_spec g naming root
  exact ⟨by rw [isNode, copyOf_root],
    titledOnce_of_copying copying wellFormed every (Naming.isNamed_iff.2 member)⟩

/-- A document with titles of a schema, of a schema inside it, of a property and of an example. -/
def titledDocument : Graph :=
  ⟨#[.mapping [(.str "title", .str "top"), (.str "properties", .node 1)],
    .mapping [(.str "title", .node 2), (.str "next", .node 0), (.str "inner", .node 3)],
    .mapping [(.str "type", .str "string")],
    .mapping [(.str "title", .str "inner"), (.str "items", .node 3), (.str "examples", .node 4)],
    .sequence [.node 5],
    .mapping [(.str "title", .str "example")]]⟩

theorem titles_copied_titledDocument :
    (∀ schema ∈ (Naming.after ["Top"] (namesFirst none)).namedSchemas,
      defined? titledDocument (.node schema) = some schema) ∧
    (copy titledDocument (Naming.after ["Top"] (namesFirst none)) (.node 0)).2 =
      .node (copyOf titledDocument.size
        (members titledDocument (Naming.after ["Top"] (namesFirst none)) 0) 0) ∧
    TitledOnce titledDocument
      (copy titledDocument (Naming.after ["Top"] (namesFirst none)) (.node 0)).1
      (Naming.after ["Top"] (namesFirst none)) 0
      (copyOf titledDocument.size
        (members titledDocument (Naming.after ["Top"] (namesFirst none)) 0)) :=
  have plain : ∀ schema ∈ (Naming.after ["Top"] (namesFirst none)).namedSchemas,
      defined? titledDocument (.node schema) = some schema := by decide +kernel
  ⟨plain, titles_copied (Graph.wellFormed_of_checked (by decide +kernel)) plain
    (by decide +kernel)⟩

/-- The property and the example keep their titles, the inner schema does not. -/
example :
    (copy titledDocument (Naming.after [] (namesFirst none)) (.node 0)).1.nodes.toList.drop 6 =
      [.mapping [(.str "title", .str "A"), (.str "properties", .node 7)],
        .mapping [(.str "title", .node 8), (.str "next", .node 12), (.str "inner", .node 9)],
        .mapping [(.str "type", .str "string")],
        .mapping [(.str "items", .node 9), (.str "examples", .node 10)],
        .sequence [.node 11],
        .mapping [(.str "title", .str "example")],
        .mapping (referenceTo "a")] := by
  decide +kernel

end Typewright.Standalone
