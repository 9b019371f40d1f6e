import Typewright.Proofs.Compile.Resolve
import Typewright.Proofs.Schema.Images

/-!
# Definitions mirror the document

Copies of named schemas are added one after the other, each in a graph that extends the document by
the earlier ones. `Standalone.definitions_mirror` says that the definition of every named schema
mirrors the schema and that the references in it resolve to the definitions of the schemas that they
stand for.
-/

namespace Typewright.Standalone

open Schema

/-- The copies of schemas stand behind the graph that they are added to. -/
theorem copyAll_behind (naming : Naming) (schemas : List Nat) (g : Graph) {id : String} {v : Value}
    (member : (id, v) ∈ (copyAll naming g schemas).2) :
    ∃ place, v = .node place ∧ g.size ≤ place := by
  induction schemas generalizing g with
  | nil => cases member
  | cons schema schemas ih =>
    obtain ⟨_, isNode, keeps, _⟩ := copy_spec g naming schema
    rw [copyAll] at member
    rcases List.mem_cons.1 member with here | later
    · rw [(Prod.mk.inj here).2]
      exact ⟨g.size, isNode, Nat.le_refl _⟩
    · obtain ⟨place, same, behind⟩ := ih _ later
      exact ⟨place, same, keeps.size_le.trans behind⟩

/-- The copies of schemas are given by their ids, in the order of the schemas. Each was made in a
graph between the one before and the one after all of them, and no other copy begins among the
containers that were added for it. -/
theorem copyAll_spec (naming : Naming) (schemas : List Nat) (g : Graph) :
    g.Extends (copyAll naming g schemas).1 ∧
      (copyAll naming g schemas).2.map (·.1) =
        schemas.map (fun schema => (naming.idOf? schema).getD "") ∧
      ∀ schema ∈ schemas, ∃ h, g.Extends h ∧
        (copy h naming (.node schema)).1.Extends (copyAll naming g schemas).1 ∧
        ((naming.idOf? schema).getD "", (copy h naming (.node schema)).2) ∈
          (copyAll naming g schemas).2 ∧
        ∀ id place, (id, .node place) ∈ (copyAll naming g schemas).2 → h.size ≤ place →
          place < (copy h naming (.node schema)).1.size → place = h.size := by
  induction schemas generalizing g with
  | nil => exact ⟨Graph.Extends.refl g, rfl, by simp⟩
  | cons schema schemas ih =>
    obtain ⟨_, _, keeps, _⟩ := copy_spec g naming schema
    obtain ⟨keepsLater, ids, made⟩ := ih (copy g naming (.node schema)).1
    refine ⟨keeps.trans keepsLater, ?_, fun other member => ?_⟩
    · rw [copyAll, List.map_cons, List.map_cons, ids]
    rcases List.mem_cons.1 member with rfl | later
    · refine ⟨g, Graph.Extends.refl g, keepsLater, List.mem_cons_self, ?_⟩
      intro id place listed least most
      rcases List.mem_cons.1 listed with here | later
      · exact Value.node.inj (Prod.mk.inj here).2
      · obtain ⟨behind, same, bound⟩ :=
          copyAll_behind naming schemas (copy g naming (.node other)).1 later
        cases same
        omega
    · obtain ⟨h, between, after, given, alone⟩ := made other later
      refine ⟨h, keeps.trans between, after, List.mem_cons_of_mem _ given, ?_⟩
      intro id place listed least most
      rcases List.mem_cons.1 listed with here | early
      · -- the first copy begins where the graph ended, before everything that was made later
        have first := Value.node.inj (Prod.mk.inj here).2
        have start : g.size < (copy g naming (.node schema)).1.size := by
          have room := size_copy g naming schema
          obtain ⟨rest, shape⟩ := Search.order_eq_cons (copiedWith g naming) g.size schema
          rw [members, shape, List.length_cons] at room
          omega
        have bound := between.size_le
        omega
      · exact alone id place early least most

/-- The ids of the definitions are those of the named schemas, each of another. -/
theorem ids_definitions {words : List String} {naming : Naming}
    (consistent : Naming.Consistent words naming) (g : Graph) :
    (definitions g naming).2.map (·.1) = naming.names.map fun entry => Text.lower entry.2 := by
  rw [definitions, (copyAll_spec naming naming.namedSchemas g).2.1, Naming.namedSchemas,
    List.map_map]
  refine List.map_congr_left fun entry member => ?_
  have found := consistent.nameOf?_eq_some_iff.2 (show (entry.1, entry.2) ∈ _ from member)
  simp [Naming.idOf?, found]

theorem nodup_ids_definitions {words : List String} {naming : Naming}
    (consistent : Naming.Consistent words naming) (g : Graph) :
    ((definitions g naming).2.map (·.1)).Nodup := by
  rw [ids_definitions consistent]
  exact consistent.apart

/-! ## Roots of definitions -/

theorem keys_of_copiedEntries {g : Graph} {naming : Naming} {base start : Nat}
    {members : List Nat} {references : List Node} {entries copies : Entries}
    (all : List.Forall₂ (CopiedEntry g naming base start members references) entries copies)
    {copy : Scalar × Value} (member : copy ∈ copies) : ∃ entry ∈ entries, entry.1 = copy.1 := by
  obtain ⟨entry, present, one⟩ := exists_original_of_mem all member
  exact ⟨entry, present, one.1.symm⟩

/-- The root of a copy is a mapping with its name as title and without a reference. -/
theorem root_of_copy {g h copied : Graph} {naming : Naming} {root : Nat} {name : String}
    (keeps : g.Extends h) (later : (copy h naming (.node root)).1.Extends copied)
    (defined : defined? g (.node root) = some root) (named : naming.nameOf? root = some name) :
    ∃ place entries, (copy h naming (.node root)).2 = .node place ∧
      copied.get? place = some (.mapping entries) ∧
      entries.get? "title" = some (.str name) ∧ entries.has refKey = false := by
  obtain ⟨_, own, foundBefore, plain⟩ := defined?_eq_some defined
  have found := keeps.found foundBefore
  have stillDefined := defined?_of_get? found plain
  obtain ⟨references, isNode, _, _, _, images⟩ := copy_spec h naming root
  obtain ⟨rest, first⟩ := Search.order_eq_cons (copiedWith h naming) h.size root
  obtain ⟨node, held, one⟩ := images 0 root (by rw [members, first]; rfl)
  cases one with
  | missing absent =>
    rw [found] at absent
    cases absent
  | sequence same _ =>
    rw [found] at same
    cases same
  | mapping same all =>
    rw [found] at same
    cases same
    refine ⟨_, _, isNode, later.found held, ?_, ?_⟩
    · rw [Entries.get?_foldl_put_of_ne _ fun copy member key => ?_]
      · rcases leading_cases (g := h) own named with short | ⟨_, _, _, _, long⟩
        · rw [short, Entries.get?_cons, if_pos rfl]
        · rw [long, Entries.get?_cons, if_pos rfl]
      · obtain ⟨entry, present, keySame⟩ := keys_of_copiedEntries all member
        exact untitled_of_kept stillDefined entry present (by rw [keySame, key])
    · rw [Entries.has, Entries.get?_foldl_put_of_ne _ fun copy member key => ?_,
        get?_leading_refKey]
      · rfl
      · obtain ⟨entry, present, keySame⟩ := keys_of_copiedEntries all member
        exact Entries.has_eq_false_iff.1 plain entry (List.mem_of_mem_filter present)
          (by rw [keySame, key])

/-- The definition of a named schema is a mapping with its name as title and without a
reference. -/
theorem exists_definition {g : Graph} {naming : Naming} {root : Nat} {name : String}
    (defined : defined? g (.node root) = some root) (named : naming.nameOf? root = some name) :
    ∃ place entries, (Text.lower name, .node place) ∈ (definitions g naming).2 ∧
      (definitions g naming).1.get? place = some (.mapping entries) ∧
      entries.get? "title" = some (.str name) ∧ entries.has refKey = false := by
  obtain ⟨_, _, made⟩ := copyAll_spec naming naming.namedSchemas g
  obtain ⟨h, keeps, later, given, _⟩ := made root
    (List.mem_map_of_mem (Naming.mem_names_of_nameOf? named))
  obtain ⟨place, entries, isNode, found, title, plain⟩ := root_of_copy keeps later defined named
  rw [isNode, Naming.idOf?, named] at given
  exact ⟨place, entries, given, found, title, plain⟩

/-- The definition of a named schema is a copy in place, in a stretch of the graph where no other
definition begins. -/
structure Stretch (g : Graph) (naming : Naming) (root base stop : Nat) (members : List Nat)
    (references : List Node) : Prop where
  copying : Copying g (definitions g naming).1 naming root base members references
  areReferences : ∀ node ∈ references, IsReference g naming node
  start : copyOf base members root = base
  listed : ((naming.idOf? root).getD "", .node base) ∈ (definitions g naming).2
  room : base + members.length + references.length ≤ stop
  alone : ∀ id place, (id, .node place) ∈ (definitions g naming).2 → base ≤ place →
    place < stop → place = base

theorem exists_stretch {g : Graph} {naming : Naming} (wellFormed : g.WellFormed)
    (plain : ∀ id, naming.isNamed id = true → defined? g (.node id) = some id) {root : Nat}
    (named : naming.isNamed root = true) : ∃ base stop members references,
      Stretch g naming root base stop members references := by
  obtain ⟨_, _, made⟩ := copyAll_spec naming naming.namedSchemas g
  obtain ⟨h, keeps, later, given, alone⟩ := made root (Naming.isNamed_iff.1 named)
  obtain ⟨references, copying, areReferences, room⟩ :=
    exists_copying wellFormed keeps later (namesMappings_of_plain plain) (plain root named)
  exact ⟨h.size, _, _, references, copying, areReferences, copyOf_root h, given, room, alone⟩

/-! ## Faithful definitions -/

/-- The definitions of a document mirror its named schemas: each schema has a definition under its
id, the definition mirrors the schema, and the reference to the id resolves to it. -/
def Mirrored (g : Graph) (naming : Naming) (leads : Nat → Nat → List Nat)
    (exempt : Nat → Entries → Prop) : Prop :=
  ((definitions g naming).2.map (·.1)).Nodup ∧
    ∀ root ∈ naming.namedSchemas, ∃ id image,
      naming.idOf? root = some id ∧ (id, .node (image root)) ∈ (definitions g naming).2 ∧
      Mirrors g (definitions g naming).1 naming root (leads root) (exempt root) image ∧
      Compile.resolve (Compile.addRoot (definitions g naming).1 (definitions g naming).2).1
        (Compile.addRoot (definitions g naming).1 (definitions g naming).2).2
        (definitionsPointer ++ id) = .ok (.node (image root))

/-- The definition of a named schema mirrors the schema and is what references to its id resolve to,
and no other definition begins among the images of its own containers. -/
theorem exists_mirror {g : Graph} {words : List String} {naming : Naming}
    (wellFormed : g.WellFormed) (consistent : Naming.Consistent words naming)
    (plain : ∀ id, naming.isNamed id = true → defined? g (.node id) = some id) {root : Nat}
    (named : naming.isNamed root = true) : ∃ id image,
      naming.idOf? root = some id ∧ (id, .node (image root)) ∈ (definitions g naming).2 ∧
      Mirrors g (definitions g naming).1 naming root
        (keptSuccessors g (dependencies g (.node root))) (HasIdleDescription g naming root) image ∧
      Compile.resolve (Compile.addRoot (definitions g naming).1 (definitions g naming).2).1
        (Compile.addRoot (definitions g naming).1 (definitions g naming).2).2
        (definitionsPointer ++ id) = .ok (.node (image root)) ∧
      ∀ own, KeptOwn g naming root own → ∀ other,
        (other, .node (image own)) ∈ (definitions g naming).2 → own = root := by
  obtain ⟨name, found⟩ := Naming.exists_nameOf?_of_mem (Naming.isNamed_iff.1 named)
  have isName := consistent.isName _ (Naming.mem_names_of_nameOf? found)
  have isId : naming.idOf? root = some (Text.lower name) := by rw [Naming.idOf?, found]; rfl
  obtain ⟨base, stop, members, references, stretch⟩ := exists_stretch wellFormed plain named
  have mirrors := mirrors_of_copying stretch.copying (namesMappings_of_plain plain) wellFormed
    (plain root named) named
  have given := stretch.listed
  rw [isId, Option.getD_some, ← stretch.start] at given
  refine ⟨_, _, isId, given, mirrors,
    Compile.resolve_definition (nodup_ids_definitions consistent g) given isName.lower_ne_empty
      fun c inId => isName.isPart_of_mem_lower inId, fun own isOwn other listed => ?_⟩
  have member := (stretch.copying.member_iff own).2 (own_of_kept isOwn)
  have before : copyOf base members own < base + members.length := copyOf_lt member
  have place := stretch.alone other _ listed (Nat.le_add_right _ _)
    (before.trans_le ((Nat.le_add_right _ _).trans stretch.room))
  exact mirrors.injective own root isOwn .refl (by rw [place, stretch.start])

theorem mirrored_of_consistent {g : Graph} {words : List String} {naming : Naming}
    (wellFormed : g.WellFormed) (consistent : Naming.Consistent words naming)
    (plain : ∀ schema ∈ naming.namedSchemas, defined? g (.node schema) = some schema) :
    Mirrored g naming (fun root => keptSuccessors g (dependencies g (.node root)))
      (HasIdleDescription g naming) := by
  refine ⟨nodup_ids_definitions consistent g, fun root member => ?_⟩
  obtain ⟨id, image, isId, given, mirrors, resolves, _⟩ := exists_mirror wellFormed consistent
    (fun id named => plain id (Naming.isNamed_iff.1 named)) (Naming.isNamed_iff.2 member)
  exact ⟨id, image, isId, given, mirrors, resolves⟩

/-- The definitions mirror the named schemas, along the entries that copies keep, the place of an
idle description left open.

The document is any well formed graph, with sharing and cycles, and the names are those that a
registry has after any requests, if the named schemas are mappings without a reference. -/
theorem definitions_mirror {g : Graph} (wellFormed : g.WellFormed) (words : List String)
    (requests : List Naming.Request)
    (plain : ∀ schema ∈ (Naming.after words requests).namedSchemas,
      defined? g (.node schema) = some schema) :
    Mirrored g (Naming.after words requests)
      (fun root => keptSuccessors g (dependencies g (.node root)))
      (HasIdleDescription g (Naming.after words requests)) :=
  mirrored_of_consistent wellFormed (Naming.consistent_after words requests) plain

/-- A tree of a named schema: its own nodes, a shared list and the schema itself inside. -/
def cyclicDocument : Graph :=
  ⟨#[.mapping [(.str "type", .str "object"), (.str "properties", .node 1)],
    .mapping [(.str "next", .node 0), (.str "left", .node 2), (.str "right", .node 2)],
    .mapping [(.str "title", .str "inner"), (.str "enum", .node 3), (.str "not", .node 1)],
    .sequence [.scalar (.int 1), .node 3]]⟩

/-- The requests that name the first schema of a document. -/
def namesFirst (description : Option String) : List Naming.Request :=
  [.propose { schema := 0, title := "a", description }, .finalize]

theorem definitions_mirror_cyclic :
    (∀ schema ∈ (Naming.after ["Top"] (namesFirst none)).namedSchemas,
      defined? cyclicDocument (.node schema) = some schema) ∧
    Mirrored cyclicDocument (Naming.after ["Top"] (namesFirst none))
      (fun root => keptSuccessors cyclicDocument (dependencies cyclicDocument (.node root)))
      (HasIdleDescription cyclicDocument (Naming.after ["Top"] (namesFirst none))) :=
  have plain : ∀ schema ∈ (Naming.after ["Top"] (namesFirst none)).namedSchemas,
      defined? cyclicDocument (.node schema) = some schema := by decide +kernel
  ⟨plain, definitions_mirror (Graph.wellFormed_of_checked (by decide +kernel)) ["Top"]
    (namesFirst none) plain⟩

/-- A schema whose title is a container. -/
def containerTitle : Graph :=
  ⟨#[.mapping [(.str "title", .node 1), (.str "type", .str "object")],
    .mapping [(.str "a", .scalar (.int 1))]]⟩

/-- A schema whose description is empty. -/
def emptyDescription : Graph :=
  ⟨#[.mapping [(.str "type", .str "object"), (.str "description", .str "")]]⟩

theorem definitions_containerTitle :
    definitions containerTitle (Naming.after ["Top"] (namesFirst none)) =
      (⟨containerTitle.nodes ++
        #[.mapping [(.str "title", .str "A"), (.str "type", .str "object")],
          .mapping [(.str "a", .scalar (.int 1))]]⟩, [("a", .node 2)]) := by
  decide +kernel

theorem definitions_emptyDescription :
    definitions emptyDescription (Naming.after ["Top"] (namesFirst (some "made up"))) =
      (⟨emptyDescription.nodes ++
        #[.mapping [(.str "title", .str "A"), (.str "description", .str ""),
          (.str "type", .str "object")]]⟩, [("a", .node 1)]) := by
  decide +kernel

/-- Without the exceptions copies need not mirror their schemas. What a dropped title holds is
reached in the document and not in the copy, and the empty description of a schema that one was made
up for loses its place among the entries. -/
theorem not_mirrored_without_exceptions :
    (containerTitle.WellFormed ∧
      (∀ schema ∈ (Naming.after ["Top"] (namesFirst none)).namedSchemas,
        defined? containerTitle (.node schema) = some schema) ∧
      ¬ Mirrored containerTitle (Naming.after ["Top"] (namesFirst none))
        (fun _ => containerTitle.successors) (fun _ _ => False)) ∧
    (emptyDescription.WellFormed ∧
      (∀ schema ∈ (Naming.after ["Top"] (namesFirst (some "made up"))).namedSchemas,
        defined? emptyDescription (.node schema) = some schema) ∧
      ¬ Mirrored emptyDescription (Naming.after ["Top"] (namesFirst (some "made up")))
        (fun _ => emptyDescription.successors) (fun _ _ => False)) := by
  refine ⟨⟨Graph.wellFormed_of_checked (by decide +kernel), by decide +kernel, ?_⟩,
    ⟨Graph.wellFormed_of_checked (by decide +kernel), by decide +kernel, ?_⟩⟩
  · rintro ⟨_, all⟩
    obtain ⟨id, image, _, given, mirrors, _⟩ := all 0 (by decide +kernel)
    rw [definitions_containerTitle] at given mirrors
    have place : image 0 = 2 := by
      rw [List.mem_singleton] at given
      injection given with _ same
      injection same
    -- the container under the title is own, and the copy leads nowhere
    have own : Own containerTitle.successors (Naming.after ["Top"] (namesFirst none)) 0 1 :=
      .single ⟨by decide +kernel, by decide +kernel⟩
    rcases (mirrors.reached 1 own).cases_head with same | ⟨next, leads, _⟩
    · have equal := mirrors.injective 0 1 .refl own same
      cases equal
    · rw [place] at leads
      change next ∈ ([] : List Nat) at leads
      cases leads
  · rintro ⟨_, all⟩
    obtain ⟨id, image, _, given, mirrors, _⟩ := all 0 (by decide +kernel)
    rw [definitions_emptyDescription] at given mirrors
    have place : image 0 = 1 := by
      rw [List.mem_singleton] at given
      injection given with _ same
      injection same
    obtain ⟨name, copies, _, held, _, _, ordered⟩ := mirrors.root _ rfl
    rw [place] at held
    have shape : (.str "title", .str name) :: copies = ([(.str "title", .str "A"),
        (.str "description", .str ""), (.str "type", .str "object")] : Entries) := by
      injection held with same
      injection same with entries
      exact entries.symm
    injection shape with _ tail
    obtain ⟨added, rest, split, none | ⟨text, proposed, one⟩, kept⟩ := ordered not_false
    · -- the copy has the description first, the document has it last
      rw [none, List.nil_append] at split
      have keys := keys_of_entriesStandFor kept
      rw [← split, tail] at keys
      revert keys
      decide +kernel
    · -- nor is it the proposed description that stands there
      have madeUp : (Naming.after ["Top"] (namesFirst (some "made up"))).descriptionOf? 0 =
          some "made up" := by decide +kernel
      rw [madeUp] at proposed
      cases proposed
      rw [split, one] at tail
      injection tail with first _
      revert first
      decide +kernel

end Typewright.Standalone
