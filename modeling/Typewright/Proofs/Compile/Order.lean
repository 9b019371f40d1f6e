import Typewright.Proofs.Compile.Alone

/-!
# The order of the definitions

Definitions that stand apart are declared alike in any order: each declaration is that of the
definition compiled alone (`Compile.DeclaredAlone`), and a compilation that gives a source in one
order gives one in every other (`Compile.declarations_in_any_order`). Only the declaration of the
root and the order of the others differ.
-/

namespace Typewright.Compile

open Schema Standalone Text

section

variable {g : Graph} {definitions listed : List (String × Value)}

/-! ## What is declared -/

/-- The declaration of a definition that is compiled alone. -/
def DeclaredAlone (g : Graph) (definitions : List (String × Value)) (d : Declaration) : Prop :=
  ∃ i entries, (i, .node d.schema) ∈ definitions ∧ g.get? d.schema = some (.mapping entries) ∧
    entries.get? "title" = some (.str d.name) ∧ d.comment = commentOf g entries ∧
    bodyAlone g definitions d.schema entries = .ok d.body

/-- A definition has one declaration. -/
theorem DeclaredAlone.unique {d other : Declaration} (first : DeclaredAlone g definitions d)
    (second : DeclaredAlone g definitions other) (same : d.schema = other.schema) : d = other := by
  obtain ⟨schema, name, comment, body⟩ := d
  obtain ⟨_, nameToo, commentToo, bodyToo⟩ := other
  cases same
  obtain ⟨_, entries, _, found, titled, rfl, made⟩ := first
  obtain ⟨_, others, _, foundToo, titledToo, rfl, madeToo⟩ := second
  dsimp only at found titled made foundToo titledToo madeToo
  rw [found] at foundToo
  cases foundToo
  rw [titled] at titledToo
  cases titledToo
  rw [made] at madeToo
  cases madeToo
  rfl

variable (apart : Apart g definitions) (same : listed.Perm definitions) {draft : Draft}
variable (whole : WholeDraft g listed draft) (settled : Settled g definitions [] draft)
include apart same whole

/-- Every definition has a name and a body. -/
theorem declared_of_definition {i : String} {place : Nat} (member : (i, .node place) ∈ definitions) :
    place ∈ draft.names.map (·.1) ∧ place ∈ draft.bodies.map (·.1) := by
  obtain ⟨_, entries, name, isNode, found, titled, noRef, _⟩ := apart.root member
  cases isNode
  have held : (wholeJob g listed).graph.get? place = some (.mapping entries) := by
    rw [get?_wholeJob g listed (Graph.lt_size_of_get? found), found]
  have named := whole.each _ (same.mem_iff.2 member) place entries name rfl held
    (by rw [Entries.has, noRef]; rfl) titled
  exact ⟨named, whole.complete place named⟩

include settled

/-- If all definitions are declared, none is refused. -/
theorem not_refused : ¬ Refused g definitions := by
  intro refused
  obtain ⟨i, place, entries, e, member, found, failed⟩ := refused
  obtain ⟨_, declared⟩ := declared_of_definition apart same whole member
  obtain ⟨body, isBody, rfl⟩ := List.mem_map.1 declared
  rcases settled.bodies body isBody with isRoot | ⟨others, held, _, made⟩
  · have bound := lt_size_of_definition apart.toLinked member
    omega
  · rw [found] at held
    cases held
    rw [failed] at made
    cases made

/-- The declarations are that of the root, and those of the definitions as they are alone. -/
theorem declarations_settled : ∃ wrapper rest, draft.declarations = wrapper :: rest ∧
    wrapper.schema = g.size + 2 ∧ ((wrapper :: rest).map (·.schema)).Nodup ∧
    ∀ d, d ∈ rest ↔ DeclaredAlone g definitions d := by
  have names := declarations_of_complete whole.complete
  have schemas : draft.declarations.map (·.schema) = draft.names.map (·.1) := by
    rw [← names, List.map_map]
    rfl
  have once := whole.assigned.nodup
  rw [← schemas] at once
  obtain ⟨more, rootFirst⟩ := whole.rootFirst
  obtain ⟨wrapper, rest, split, isRoot⟩ : ∃ wrapper rest, draft.declarations = wrapper :: rest ∧
      wrapper.schema = g.size + 2 := by
    rw [← rootFirst] at names
    cases split : draft.declarations with
    | nil =>
      rw [split] at names
      cases names
    | cons wrapper rest =>
      rw [split] at names
      exact ⟨wrapper, rest, rfl, (Prod.mk.inj (List.cons.inj names).1).1⟩
  rw [split] at once
  have declaredAlone : ∀ d ∈ rest, DeclaredAlone g definitions d := by
    intro d member
    have other : d.schema ≠ g.size + 2 := by
      intro isWrapper
      rw [List.map_cons, List.nodup_cons, isRoot, ← isWrapper] at once
      exact once.1 (List.mem_map_of_mem member)
    have isDeclaration : d ∈ draft.declarations := by
      rw [split]
      exact List.mem_cons_of_mem _ member
    obtain ⟨named, declared⟩ := exists_of_mem_declarations isDeclaration
    rcases settled.names _ named with wrong | ⟨i, entries, listed, found, titled⟩
    · exact absurd (Prod.mk.inj wrong).1 other
    · rcases settled.bodies _ declared with wrong | ⟨others, held, comment, made⟩
      · exact absurd wrong other
      · dsimp only at found held comment made
        rw [found] at held
        cases held
        exact ⟨i, entries, listed, found, titled, comment, made⟩
  refine ⟨wrapper, rest, split, isRoot, once, fun d => ⟨declaredAlone d, fun isAlone => ?_⟩⟩
  have ⟨i, _, member, _⟩ := isAlone
  have named := (declared_of_definition apart same whole member).1
  rw [← schemas, split] at named
  obtain ⟨other, isOther, sameSchema⟩ := List.mem_map.1 named
  rcases List.mem_cons.1 isOther with isWrapper | inRest
  · have bound := lt_size_of_definition apart.toLinked member
    rw [isWrapper] at sameSchema
    omega
  · rwa [← (declaredAlone other inRest).unique isAlone sameSchema]

end

/-! ## Sources in any order -/

/-- The declarations of a schema. -/
def Source.declarationsOf (source : Source) (schema : Value) : List Declaration :=
  source.declarations.filter fun d => .node d.schema == schema

/-- Two sources declare definitions alike: each definition has one declaration, and the same in both.
Apart from that of the root, which comes first, their declarations are the same in some order. -/
structure DeclareAlike (g : Graph) (definitions : List (String × Value)) (source other : Source) :
    Prop where
  each : ∀ id v, (id, v) ∈ definitions →
    ∃ d, source.declarationsOf v = [d] ∧ other.declarationsOf v = [d]
  rest : ∃ wrapper rest wrapperToo others, source.declarations = wrapper :: rest ∧
    other.declarations = wrapperToo :: others ∧ wrapper.schema = g.size + 2 ∧
    wrapperToo.schema = g.size + 2 ∧ rest.Perm others

/-- If schemas are declared once, a declaration is the only one of its schema. -/
theorem filter_schema {declarations : List Declaration} {d : Declaration}
    (once : (declarations.map (·.schema)).Nodup) (member : d ∈ declarations) :
    declarations.filter (fun other => Value.node other.schema == .node d.schema) = [d] := by
  induction declarations with
  | nil => cases member
  | cons first declarations ih =>
    rw [List.map_cons, List.nodup_cons] at once
    rcases List.mem_cons.1 member with rfl | later
    · have none : declarations.filter
          (fun other => Value.node other.schema == .node d.schema) = [] := by
        rw [List.filter_eq_nil_iff]
        intro other isOther same
        have schemas : other.schema = d.schema := by simpa using same
        exact once.1 (schemas ▸ List.mem_map_of_mem isOther)
      rw [List.filter_cons_of_pos (by simp), none]
    · have other : first.schema ≠ d.schema := by
        intro same
        exact once.1 (same ▸ List.mem_map_of_mem later)
      rw [List.filter_cons_of_neg (by simpa using other)]
      exact ih once.2 later

section

variable {g : Graph} {definitions first second : List (String × Value)}

/-- Drafts that are settled for the same definitions give sources that declare them alike. -/
theorem declareAlike_of_settled (apart : Apart g definitions) (isFirst : first.Perm definitions)
    (isSecond : second.Perm definitions) {draft draftToo : Draft} (whole : WholeDraft g first draft)
    (settled : Settled g definitions [] draft) (wholeToo : WholeDraft g second draftToo)
    (settledToo : Settled g definitions [] draftToo) {source other : Source}
    (made : source.declarations = draft.declarations)
    (madeToo : other.declarations = draftToo.declarations) :
    DeclareAlike g definitions source other := by
  obtain ⟨wrapper, rest, split, isRoot, once, alone⟩ :=
    declarations_settled apart isFirst whole settled
  obtain ⟨wrapperToo, others, splitToo, isRootToo, onceToo, aloneToo⟩ :=
    declarations_settled apart isSecond wholeToo settledToo
  have perm : rest.Perm others := by
    have nodup := List.Nodup.of_map _ (List.nodup_cons.1 once).2
    have nodupToo := List.Nodup.of_map _ (List.nodup_cons.1 onceToo).2
    exact (List.perm_ext_iff_of_nodup nodup nodupToo).2 fun d =>
      (alone d).trans (aloneToo d).symm
  rw [split] at made
  rw [splitToo] at madeToo
  refine ⟨fun id v member => ?_, wrapper, rest, wrapperToo, others, made, madeToo, isRoot, isRootToo,
    perm⟩
  obtain ⟨place, _, _, rfl, found, _⟩ := apart.root member
  have named := (declared_of_definition apart isFirst whole member).1
  rw [← declarations_of_complete whole.complete, split, List.map_map] at named
  obtain ⟨d, isDeclared, sameSchema⟩ := List.mem_map.1 named
  have isPlace : d.schema = place := sameSchema
  have inRest : d ∈ rest := by
    rcases List.mem_cons.1 isDeclared with isWrapper | inRest
    · have bound := Graph.lt_size_of_get? found
      rw [isWrapper] at isPlace
      omega
    · exact inRest
  refine ⟨d, ?_, ?_⟩
  · rw [Source.declarationsOf, made, ← isPlace]
    exact filter_schema once (List.mem_cons_of_mem _ inRest)
  · rw [Source.declarationsOf, madeToo, ← isPlace]
    exact filter_schema onceToo (List.mem_cons_of_mem _ (perm.mem_iff.1 inRest))

/-- If definitions that stand apart give a source in one order, they give one in any other, and both
declare them alike. -/
theorem exists_source_of_perm (apart : Apart g definitions) (isFirst : first.Perm definitions)
    (isSecond : second.Perm definitions) {source : Source}
    (made : wholeSource g first = .ok source) :
    ∃ other, wholeSource g second = .ok other ∧ DeclareAlike g definitions source other := by
  obtain ⟨draft, ran, rfl⟩ := exists_draft made
  have whole := wholeDraft_of_run ran
  have settled := (run_settles apart isFirst).runs () draft ran
  have title : (wholeJob g second).graph.field? (.node (wholeJob g second).root) "title" =
      some (.str Api.topLevelTitle) := by
    rw [Graph.field?, Graph.entries?_of_get? get?_root]
    simp [rootEntries, Entries.get?_cons]
  cases ranToo : (Job.run (wholeJob g second)).run {} with
  | error e =>
    rcases (run_settles apart isSecond).fails e ranToo with rfl | refused
    · have chains := chainsEnd_of_linked (apart.perm isSecond).toLinked
      cases (run_ends chains title).fails _ ranToo
    · exact absurd refused (not_refused apart isFirst whole settled)
  | ok both =>
    obtain ⟨_, draftToo⟩ := both
    refine ⟨⟨"", draftToo.declarations, draftToo.warnings⟩, ?_, ?_⟩
    · rw [wholeSource_eq, ranToo]
      rfl
    · exact declareAlike_of_settled apart isFirst isSecond whole settled
        (wholeDraft_of_run ranToo) ((run_settles apart isSecond).runs () draftToo ranToo) rfl rfl

end

/-- The declarations of a document without references do not depend on the order of the definitions,
if only the roots of these have texts as titles. If compiling the definitions in one order gives a
source, so does every other order. Each definition has the same declaration in both, and only the
declaration of the root and the order of the others differ.

The document is any well formed graph, and the names are those that a registry has after any
requests, given that the title of the root is reserved. -/
theorem declarations_in_any_order {g : Graph} (wellFormed : g.WellFormed)
    (dereferenced : ∀ id, g.hasField refKey id = false) (words : List String)
    (reserved : Api.topLevelTitle ∈ words) (requests : List Naming.Request)
    (mappings : ∀ schema ∈ (Naming.after words requests).namedSchemas,
      g.isMapping (.node schema) = true)
    (untitled : OnlyRootsTitled (definitions g (Naming.after words requests)).1
      (definitions g (Naming.after words requests)).2)
    (first second : List (String × Value))
    (isFirst : first.Perm (definitions g (Naming.after words requests)).2)
    (isSecond : second.Perm (definitions g (Naming.after words requests)).2) (source : Source)
    (made : wholeSource (definitions g (Naming.after words requests)).1 first = .ok source) :
    ∃ other, wholeSource (definitions g (Naming.after words requests)).1 second = .ok other ∧
      DeclareAlike (definitions g (Naming.after words requests)).1
        (definitions g (Naming.after words requests)).2 source other := by
  have plain : ∀ id, (Naming.after words requests).isNamed id = true →
      defined? g (.node id) = some id := by
    intro id isNamed
    have isMapping := mappings id (Naming.isNamed_iff.1 isNamed)
    rw [Graph.isMapping, Option.isSome_iff_exists] at isMapping
    obtain ⟨entries, read⟩ := isMapping
    have noRef := dereferenced id
    rw [Graph.hasField, Graph.field?, read] at noRef
    exact defined?_of_get? (Graph.get?_of_entries? read) noRef
  have consistent := Naming.consistent_after words requests
  have apart := apart_definitions plain wellFormed consistent (fun _ child _ => dereferenced child)
    (List.mem_map_of_mem reserved) untitled
  exact exists_source_of_perm apart isFirst isSecond made

/-- Two schemas that hold each other, one of them behind a schema without a name that holds itself. -/
def ring : Graph :=
  ⟨#[.mapping [(.str "type", .str "object"), (.str "properties", .node 1)],
    .mapping [(.str "next", .node 2), (.str "self", .node 0)],
    .mapping [(.str "type", .str "array"), (.str "items", .node 3)],
    .mapping [(.str "anyOf", .node 4)],
    .sequence [.node 0, .node 3]]⟩

/-- The names of the two schemas. -/
def ringNaming : Naming :=
  Naming.after [Api.topLevelTitle]
    [.propose { schema := 0, title := "a" }, .propose { schema := 2, title := "b" }, .finalize]

theorem declarations_in_any_order_ring : ∃ source other,
    wholeSource (definitions ring ringNaming).1 (definitions ring ringNaming).2 = .ok source ∧
      source.declarations.map (·.name) = ["_Toplevelobject_", "A", "B"] ∧
      wholeSource (definitions ring ringNaming).1 (definitions ring ringNaming).2.reverse =
        .ok other ∧
      DeclareAlike (definitions ring ringNaming).1 (definitions ring ringNaming).2 source other := by
  have dereferenced : ∀ id, ring.hasField refKey id = false := by
    have checked : ∀ id < ring.size, ring.hasField refKey id = false := by decide +kernel
    intro id
    rcases Nat.lt_or_ge id ring.size with inside | outside
    · exact checked id inside
    · have missing : ring.get? id = none := Array.getElem?_eq_none outside
      rw [Graph.hasField, Graph.field?, Graph.entries?, Graph.node?, missing]
      rfl
  have untitled : OnlyRootsTitled (definitions ring ringNaming).1 (definitions ring ringNaming).2 := by
    have checked : ∀ id < (definitions ring ringNaming).1.size,
        (((definitions ring ringNaming).1.field? (.node id) "title").bind Value.str?).isSome =
          true → (definitions ring ringNaming).2.any (·.2 == .node id) = true := by
      decide +kernel
    intro i p _ id entries text _ found titled
    have isRoot := checked id (Graph.lt_size_of_get? found) (by
      rw [Graph.field?, Graph.entries?_of_get? found]
      change ((entries.get? "title").bind Value.str?).isSome = true
      rw [titled]
      rfl)
    obtain ⟨⟨j, v⟩, member, same⟩ := List.any_eq_true.1 isRoot
    rw [beq_iff_eq] at same
    exact ⟨j, same ▸ member⟩
  obtain ⟨source, made, named⟩ : ∃ source,
      wholeSource (definitions ring ringNaming).1 (definitions ring ringNaming).2 = .ok source ∧
        source.declarations.map (·.name) = ["_Toplevelobject_", "A", "B"] :=
    exists_of_toOption_map (by decide +kernel)
  obtain ⟨other, madeToo, alike⟩ := declarations_in_any_order
    (Graph.wellFormed_of_checked (by decide +kernel)) dereferenced [Api.topLevelTitle]
    (List.mem_singleton_self _) _ (by decide +kernel) untitled _ _ (.refl _)
    (List.reverse_perm _) source made
  exact ⟨source, other, made, named, madeToo, alike⟩

end Typewright.Compile
