import Typewright.Proofs.Api.Normal
import Typewright.Proofs.Compile.Whole
import Typewright.Proofs.Schema.Apart

/-!
# Which names survive the compiler

The compiler gives names a second time: it makes an identifier of each title that it meets and adds
the first suffix that makes it new. A definition has a title that is its name already, so that it
keeps the name unless another schema got it before.
-/

namespace Typewright.Compile

open Text

/-! ## Definitions of a description -/

section

variable {g : Graph} {document : Value} {normal : Api.Normal}
variable (given : Api.normalise g document = .ok normal)
include given

theorem definitions_eq : normal.graph = (Standalone.definitions g normal.naming).1 ∧
    normal.definitions = (Standalone.definitions g normal.naming).2 := by
  obtain ⟨_, _, _, _, _, both, _⟩ := Api.exists_proposals given
  exact ⟨congrArg Prod.fst both, congrArg Prod.snd both⟩

theorem nodup_ids : (normal.definitions.map (·.1)).Nodup := by
  rw [(definitions_eq given).2]
  exact Standalone.nodup_ids_definitions (Api.consistent_naming given) g

/-- Every name has a definition, in the graph that is compiled too. -/
theorem definition_of_name {entry : Nat × String} (member : entry ∈ normal.naming.names) :
    ∃ place entries, (lower entry.2, .node place) ∈ normal.definitions ∧
      (wholeJob normal.graph normal.definitions).graph.get? place = some (.mapping entries) ∧
      entries.get? "title" = some (.str entry.2) ∧ entries.has Schema.refKey = false := by
  have named := (Api.consistent_naming given).nameOf?_eq_some_iff.2
    (show (entry.1, entry.2) ∈ _ from member)
  have isNamed : normal.naming.isNamed entry.1 = true := by
    rw [Naming.isNamed, named]
    rfl
  obtain ⟨place, entries, inDefinitions, found, title, plain⟩ :=
    Standalone.exists_definition (Api.defined_of_isNamed given isNamed) named
  rw [← (definitions_eq given).1] at found
  rw [← (definitions_eq given).2] at inDefinitions
  exact ⟨place, entries, inDefinitions, (addRoot_spec _ _).2.1.found found, title, plain⟩

/-- Every definition is that of a name. -/
theorem name_of_definition {definition : String × Value}
    (member : definition ∈ normal.definitions) :
    ∃ entry ∈ normal.naming.names, definition.1 = lower entry.2 := by
  have inIds : definition.1 ∈ normal.definitions.map (·.1) := List.mem_map_of_mem member
  rw [(definitions_eq given).2, Standalone.ids_definitions (Api.consistent_naming given)] at inIds
  obtain ⟨entry, inNames, same⟩ := List.mem_map.1 inIds
  exact ⟨entry, inNames, same.symm⟩

theorem definition_unique {id : String} {v w : Value} (first : (id, v) ∈ normal.definitions)
    (second : (id, w) ∈ normal.definitions) : v = w :=
  (Prod.mk.inj (List.inj_on_of_nodup_map (nodup_ids given) first second rfl)).2

/-- A container that is a definition is that of a name. -/
theorem exists_owner {place : Nat}
    (own : ¬ ∀ definition ∈ normal.definitions, definition.2 ≠ .node place) :
    ∃ entry ∈ normal.naming.names, (lower entry.2, .node place) ∈ normal.definitions := by
  push Not at own
  obtain ⟨definition, member, isNode⟩ := own
  obtain ⟨entry, isEntry, id⟩ := name_of_definition given member
  refine ⟨entry, isEntry, ?_⟩
  rw [← id, ← isNode]
  exact member

/-- As long as no other schema has the name of a definition, ignoring case, definitions get their
names. -/
theorem name_kept {names : List (Nat × String)}
    (assigned : Assigned (wholeJob normal.graph normal.definitions) names)
    (others : ∀ other ∈ names, (∀ definition ∈ normal.definitions, definition.2 ≠ .node other.1) →
      ∀ entry ∈ normal.naming.names, lower other.2 ≠ lower entry.2) :
    ∀ declared ∈ names, ∀ entry ∈ normal.naming.names,
      (lower entry.2, .node declared.1) ∈ normal.definitions → declared.2 = entry.2 := by
  induction assigned with
  | nil => exact fun _ none => by cases none
  | @add names schema entries standIn title earlier unnamed _ found _ asked ih =>
    have kept := ih fun other member => others other (List.mem_append_left _ member)
    intro declared member entry isEntry isDefinition
    rcases List.mem_append.1 member with old | new
    · exact kept declared old entry isEntry isDefinition
    rw [List.mem_singleton] at new
    subst new
    obtain ⟨place, own, inDefinitions, held, titled, _⟩ := definition_of_name given isEntry
    have samePlace := definition_unique given isDefinition inDefinitions
    cases samePlace
    rw [found] at held
    cases held
    have isName := (Api.consistent_naming given).isName entry isEntry
    rw [titleName_of_isName titled isName asked]
    refine freeName_of_not_taken fun other isOther taken => ?_
    by_cases foreign : ∀ definition ∈ normal.definitions, definition.2 ≠ .node other.1
    · exact others other (List.mem_append_left _ isOther) foreign entry isEntry (by rw [taken])
    · -- the name would be that of another definition, which is the same one
      obtain ⟨owner, isOwner, there⟩ := exists_owner given foreign
      have same := kept other isOther owner isOwner there
      rw [taken] at same
      rw [← same] at there
      have equal := definition_unique given there isDefinition
      cases equal
      exact unnamed (List.mem_map_of_mem isOther)

end

/-- The names of a description survive its compilation: for every id the declarations are those
before, the one of the definition under the name of the schema, and those after; and no declaration
before or after has a name that is equal ignoring case. -/
def NamesSurvive (normal : Api.Normal) (source : Source) : Prop :=
  ∀ definition ∈ normal.definitions, ∀ entry ∈ normal.naming.names,
    definition.1 = lower entry.2 →
    ∃ before declaration after, source.declarations = before ++ declaration :: after ∧
      definition.2 = .node declaration.schema ∧ declaration.name = entry.2 ∧
      ∀ other ∈ before ++ after, lower other.name ≠ lower entry.2

section

variable {g : Graph} {document : Value} {normal : Api.Normal} {draft : Draft}

/-- Every schema is declared once. -/
theorem schema_ne_of_around (whole : WholeDraft normal.graph normal.definitions draft)
    {before after : List Declaration} {declaration other : Declaration}
    (split : draft.declarations = before ++ declaration :: after)
    (around : other ∈ before ++ after) : other.schema ≠ declaration.schema := by
  have once := whole.assigned.nodup
  rw [← declarations_of_complete whole.complete, split, List.map_append, List.map_cons,
    List.map_append, List.map_cons, List.nodup_middle, List.nodup_cons] at once
  intro same
  refine once.1 ?_
  rw [← same, ← List.map_append, ← List.map_append]
  exact List.mem_map.2 ⟨_, List.mem_map_of_mem around, rfl⟩

variable (given : Api.normalise g document = .ok normal)
variable (whole : WholeDraft normal.graph normal.definitions draft)
include given whole

/-- Every definition is declared. -/
theorem exists_declared {entry : Nat × String} (member : entry ∈ normal.naming.names) :
    ∃ d ∈ draft.declarations, (lower entry.2, .node d.schema) ∈ normal.definitions := by
  obtain ⟨place, own, inDefinitions, found, titled, plain⟩ := definition_of_name given member
  have named := whole.each _ inDefinitions place own entry.2 rfl found plain titled
  rw [← declarations_of_complete whole.complete, List.map_map] at named
  obtain ⟨d, isDeclared, rfl⟩ := List.mem_map.1 named
  exact ⟨d, isDeclared, inDefinitions⟩

/-- As long as no other schema is declared under the name of a definition, ignoring case, definitions
are declared under their names. -/
theorem declared_name_kept
    (others : ∀ other ∈ draft.declarations,
      (∀ definition ∈ normal.definitions, definition.2 ≠ .node other.schema) →
      ∀ entry ∈ normal.naming.names, lower other.name ≠ lower entry.2) :
    ∀ d ∈ draft.declarations, ∀ entry ∈ normal.naming.names,
      (lower entry.2, .node d.schema) ∈ normal.definitions → d.name = entry.2 := by
  have listed := declarations_of_complete whole.complete
  have kept := name_kept given whole.assigned fun other member foreign => by
    rw [← listed] at member
    obtain ⟨d, isDeclared, rfl⟩ := List.mem_map.1 member
    exact others d isDeclared foreign
  intro d member
  refine kept (d.schema, d.name) ?_
  rw [← listed]
  exact List.mem_map_of_mem member

omit whole in
theorem no_clash_of_namesSurvive {source : Source} (survive : NamesSurvive normal source) :
    ∀ other ∈ source.declarations,
      (∀ definition ∈ normal.definitions, definition.2 ≠ .node other.schema) →
      ∀ entry ∈ normal.naming.names, lower other.name ≠ lower entry.2 := by
  intro other member foreign entry isEntry
  obtain ⟨place, _, inDefinitions, _⟩ := definition_of_name given isEntry
  obtain ⟨before, declaration, after, split, isNode, _, apart⟩ :=
    survive _ inDefinitions entry isEntry rfl
  rw [split] at member
  rcases List.mem_append.1 member with early | late
  · exact apart other (List.mem_append_left _ early)
  · rcases List.mem_cons.1 late with here | later
    · rw [here] at foreign
      exact absurd isNode (foreign _ inDefinitions)
    · exact apart other (List.mem_append_right _ later)

theorem namesSurvive_of_no_clash
    (others : ∀ other ∈ draft.declarations,
      (∀ definition ∈ normal.definitions, definition.2 ≠ .node other.schema) →
      ∀ entry ∈ normal.naming.names, lower other.name ≠ lower entry.2) :
    NamesSurvive normal ⟨"", draft.declarations, draft.warnings⟩ := by
  intro definition isDefinition entry isEntry id
  have kept := declared_name_kept given whole others
  obtain ⟨declaration, isDeclared, there⟩ := exists_declared given whole isEntry
  have isNode : definition.2 = .node declaration.schema := by
    refine definition_unique given (show (definition.1, definition.2) ∈ _ from isDefinition) ?_
    rw [id]
    exact there
  obtain ⟨before, after, split⟩ := List.append_of_mem isDeclared
  refine ⟨before, declaration, after, split, isNode,
    kept declaration isDeclared entry isEntry there, fun other around equal => ?_⟩
  have isOther : other ∈ draft.declarations := by
    rw [split]
    exact ((List.sublist_cons_self declaration after).append_left before).subset around
  by_cases foreign : ∀ definition ∈ normal.definitions, definition.2 ≠ .node other.schema
  · exact others other isOther foreign entry isEntry equal
  · -- another definition has another id
    obtain ⟨owner, isOwner, thereToo⟩ := exists_owner given foreign
    rw [← kept other isOther owner isOwner thereToo, equal] at thereToo
    have same := definition_unique given thereToo there
    injection same with same
    exact schema_ne_of_around whole split around same

end

/-- Names survive exactly if no schema besides the definitions is declared under the name of one,
ignoring case. -/
theorem namesSurvive_iff_no_clash {g : Graph} {document : Value} {normal : Api.Normal}
    {source : Source} (given : Api.normalise g document = .ok normal)
    (made : wholeSource normal.graph normal.definitions = .ok source) :
    NamesSurvive normal source ↔ ∀ other ∈ source.declarations,
      (∀ definition ∈ normal.definitions, definition.2 ≠ .node other.schema) →
      ∀ entry ∈ normal.naming.names, lower other.name ≠ lower entry.2 := by
  obtain ⟨draft, whole, rfl⟩ := exists_wholeDraft made
  exact ⟨no_clash_of_namesSurvive given, namesSurvive_of_no_clash given whole⟩

/-! ## Where other declarations come from -/

/-- A map by which the definition of a named schema of a description mirrors it. -/
abbrev IsImage (g : Graph) (normal : Api.Normal) (root : Nat) (image : Nat → Nat) : Prop :=
  Standalone.Mirrors g normal.graph normal.naming root
    (Standalone.keptSuccessors g (Schema.dependencies g (.node root)))
    (Standalone.HasIdleDescription g normal.naming root) image

/-- The copy of a titled own container of a named schema that is none of its structural
dependencies, and so keeps its title. -/
def IsLeftover (g : Graph) (normal : Api.Normal) (place : Nat) : Prop :=
  ∃ root ∈ normal.naming.namedSchemas, ∃ image id entries text,
    Standalone.Mirrors g normal.graph normal.naming root
      (Standalone.keptSuccessors g (Schema.dependencies g (.node root)))
      (Standalone.HasIdleDescription g normal.naming root) image ∧
    (∃ definition ∈ normal.definitions, definition.2 = .node (image root)) ∧
    Standalone.Own (Standalone.keptSuccessors g (Schema.dependencies g (.node root)))
      normal.naming root id ∧
    image id = place ∧ id ∉ Schema.dependencies g (.node root) ∧
    g.get? id = some (.mapping entries) ∧ entries.get? "title" = some (.str text)

section

variable {g : Graph} {document : Value} {normal : Api.Normal}
variable (given : Api.normalise g document = .ok normal) (wellFormed : g.WellFormed)
include given wellFormed

/-- The definitions of a description mirror its named schemas. -/
theorem mirrored_normal {root : Nat} (member : root ∈ normal.naming.namedSchemas) :
    ∃ id image, normal.naming.idOf? root = some id ∧
      (id, .node (image root)) ∈ normal.definitions ∧
      IsImage g normal root image := by
  obtain ⟨_, all⟩ := Standalone.mirrored_of_consistent wellFormed (Api.consistent_naming given)
    fun schema named => Api.defined_of_isNamed given (Naming.isNamed_iff.2 named)
  obtain ⟨id, image, isId, inDefinitions, mirrors, _⟩ := all root member
  rw [← (definitions_eq given).1] at mirrors
  rw [← (definitions_eq given).2] at inDefinitions
  exact ⟨id, image, isId, inDefinitions, mirrors⟩

/-- Every definition is the image of a named schema. -/
theorem mirror_of_definition {definition : String × Value}
    (member : definition ∈ normal.definitions) :
    ∃ root ∈ normal.naming.namedSchemas, ∃ image, definition.2 = .node (image root) ∧
      IsImage g normal root image := by
  obtain ⟨entry, isEntry, id⟩ := name_of_definition given member
  have named : entry.1 ∈ normal.naming.namedSchemas := List.mem_map_of_mem isEntry
  obtain ⟨other, image, isId, inDefinitions, mirrors⟩ := mirrored_normal given wellFormed named
  have found := (Api.consistent_naming given).nameOf?_eq_some_iff.2
    (show (entry.1, entry.2) ∈ _ from isEntry)
  rw [Naming.idOf?, found] at isId
  cases isId
  refine ⟨entry.1, named, image, definition_unique given member ?_, mirrors⟩
  rw [id]
  exact inDefinitions

/-- An own container of a named schema, or a reference: what a definition leads to. -/
theorem cases_of_definition {definition : String × Value}
    (member : definition ∈ normal.definitions) {c place : Nat} (isNode : definition.2 = .node c)
    (path : Relation.ReflTransGen (Search.Leads normal.graph.successors) c place) :
    ∃ root ∈ normal.naming.namedSchemas, ∃ image, c = image root ∧
      IsImage g normal root image ∧
      ((∃ id, Standalone.KeptOwn g normal.naming root id ∧ image id = place) ∨
        ∃ name, normal.graph.get? place = some (.mapping (Standalone.referenceTo name))) := by
  obtain ⟨root, named, image, same, mirrors⟩ := mirror_of_definition given wellFormed member
  rw [isNode] at same
  cases same
  refine ⟨root, named, image, rfl, mirrors, ?_⟩
  rcases mirrors.nothingElse place path with ⟨id, own, here⟩ | ⟨_, name, _, held, _⟩
  · exact Or.inl ⟨id, own, here⟩
  · exact Or.inr ⟨name, held⟩

theorem lt_size_of_keptOwn {root : Nat} (named : root ∈ normal.naming.namedSchemas) {id : Nat}
    (own : Standalone.KeptOwn g normal.naming root id) : id < g.size := by
  have defined := Api.defined_of_isNamed given (Naming.isNamed_iff.2 named)
  exact Standalone.own_lt_size wellFormed (Standalone.lt_size_of_defined defined)
    (Standalone.own_of_kept own)

/-- The copy of an own container is in the graph. -/
theorem exists_node_of_image {root : Nat} (named : root ∈ normal.naming.namedSchemas)
    {image : Nat → Nat} (mirrors : IsImage g normal root image) {id : Nat}
    (own : Standalone.KeptOwn g normal.naming root id) :
    ∃ node, normal.graph.get? (image id) = some node := by
  obtain ⟨node, found⟩ :=
    Graph.exists_get?_of_lt (lt_size_of_keptOwn given wellFormed named own)
  cases node with
  | sequence items =>
    obtain ⟨copies, held, _⟩ := mirrors.sequence id items own found
    exact ⟨_, held⟩
  | mapping entries =>
    by_cases isRoot : id = root
    · subst isRoot
      obtain ⟨_, _, _, held, _⟩ := mirrors.root entries found
      exact ⟨_, held⟩
    · obtain ⟨copies, held, _⟩ := mirrors.mapping id entries own isRoot found
      exact ⟨_, held⟩

/-- A text that is the title in the copy of an own container was the title, and the container is no
structural dependency. -/
theorem title_of_image {root : Nat} (named : root ∈ normal.naming.namedSchemas)
    {image : Nat → Nat} (mirrors : IsImage g normal root image) {id : Nat}
    (own : Standalone.KeptOwn g normal.naming root id) (other : id ≠ root) {entries : Entries}
    {text : String} (found : normal.graph.get? (image id) = some (.mapping entries))
    (titled : entries.get? "title" = some (.str text)) :
    id ∉ Schema.dependencies g (.node root) ∧ ∃ source, g.get? id = some (.mapping source) ∧
      source.get? "title" = some (.str text) := by
  obtain ⟨node, original⟩ :=
    Graph.exists_get?_of_lt (lt_size_of_keptOwn given wellFormed named own)
  cases node with
  | sequence items =>
    obtain ⟨copies, held, _⟩ := mirrors.sequence id items own original
    rw [held] at found
    cases found
  | mapping source =>
    obtain ⟨copies, held, all⟩ := mirrors.mapping id source own other original
    rw [held] at found
    cases found
    obtain ⟨⟨key, value⟩, inKept, sameKey, stands⟩ :=
      exists_original_of_mem all (Entries.mem_of_get? titled)
    simp only at sameKey
    have isText : value = .str text := by
      generalize shown : Value.str text = copy at stands
      cases stands with
      | scalar s => rfl
      | own _ => cases shown
      | reference _ _ _ => cases shown
    rw [← sameKey, isText] at inKept
    have kept := List.of_mem_filter inKept
    exact ⟨by simpa using kept, source, original,
      Entries.get?_of_mem_of_distinct (wellFormed.distinct original) (List.mem_of_mem_filter inKept)⟩

/-- What the root of all definitions leads to: itself, the two mappings with the definitions, and
what the definitions lead to. -/
theorem cases_of_reached {place : Nat}
    (reached : Reached (wholeJob normal.graph normal.definitions) (.node place)) :
    place = normal.graph.size + 2 ∨ place = normal.graph.size ∨ place = normal.graph.size + 1 ∨
      ∃ definition ∈ normal.definitions, ∃ c, definition.2 = .node c ∧
        Relation.ReflTransGen (Search.Leads normal.graph.successors) c place := by
  refine cases_of_reached_whole ?_ (fun definition member id isNode => ?_) reached
  · rw [(definitions_eq given).1]
    exact Standalone.closed_definitions wellFormed.closed normal.naming
  · obtain ⟨root, named, image, same, mirrors⟩ := mirror_of_definition given wellFormed member
    obtain ⟨node, held⟩ := exists_node_of_image given wellFormed named mirrors .refl
    rw [same] at isNode
    cases isNode
    exact Graph.lt_size_of_get? held

/-- A reached mapping with a text as title is the root, a definition, or a leftover. -/
theorem cases_of_titled {place : Nat} {entries : Entries} {text : String}
    (reached : Reached (wholeJob normal.graph normal.definitions) (.node place))
    (found : (wholeJob normal.graph normal.definitions).graph.get? place =
      some (.mapping entries))
    (titled : entries.get? "title" = some (.str text)) :
    place = normal.graph.size + 2 ∨
      (∃ definition ∈ normal.definitions, definition.2 = .node place) ∨
      IsLeftover g normal place := by
  obtain ⟨_, keeps, asDefinitions, asProperties, _⟩ :=
    addRoot_spec normal.graph normal.definitions
  have notDefinitions : ∀ {holder : Nat},
      (addRoot normal.graph normal.definitions).1.get? holder =
        some (.mapping (definitionEntries normal.definitions)) → place ≠ holder := by
    rintro holder same rfl
    change (addRoot normal.graph normal.definitions).1.get? place = _ at found
    rw [same] at found
    cases found
    -- what the mapping with the definitions holds are containers, and no text
    obtain ⟨definition, member, key⟩ := List.mem_map.1 (Entries.mem_of_get? titled)
    obtain ⟨_, _, _, isNode, _⟩ := mirror_of_definition given wellFormed member
    injection key with _ value
    rw [isNode] at value
    cases value
  rcases cases_of_reached given wellFormed reached with
    rfl | rfl | rfl | ⟨definition, member, c, isNode, path⟩
  · exact Or.inl rfl
  · exact absurd rfl (notDefinitions asDefinitions)
  · exact absurd rfl (notDefinitions asProperties)
  refine Or.inr ?_
  obtain ⟨root, named, image, rfl, mirrors, ⟨id, own, rfl⟩ | ⟨name, held⟩⟩ :=
    cases_of_definition given wellFormed member isNode path
  · by_cases isRoot : id = root
    · subst isRoot
      exact Or.inl ⟨definition, member, isNode⟩
    · obtain ⟨node, held⟩ := exists_node_of_image given wellFormed named mirrors own
      change (addRoot normal.graph normal.definitions).1.get? (image id) = _ at found
      rw [keeps.found held] at found
      cases found
      obtain ⟨notNested, source, original, ownTitle⟩ :=
        title_of_image given wellFormed named mirrors own isRoot held titled
      exact Or.inr ⟨root, named, image, id, source, text, mirrors, ⟨definition, member, isNode⟩,
        own, rfl, notNested, original, ownTitle⟩
  · change (addRoot normal.graph normal.definitions).1.get? place = _ at found
    rw [keeps.found held] at found
    cases found
    simp [Standalone.referenceTo, Entries.get?_cons, Schema.refKey] at titled

end

/-- A declaration that is none of a definition is of the root of all definitions or of a
leftover. -/
theorem cases_of_declared {g : Graph} {document : Value} {normal : Api.Normal} {source : Source}
    (given : Api.normalise g document = .ok normal)
    (made : wholeSource normal.graph normal.definitions = .ok source) (wellFormed : g.WellFormed)
    {other : Declaration} (member : other ∈ source.declarations)
    (foreign : ∀ definition ∈ normal.definitions, definition.2 ≠ .node other.schema) :
    (other.schema = normal.graph.size + 2 ∧ other.name = rootName) ∨
      IsLeftover g normal other.schema := by
  obtain ⟨draft, whole, rfl⟩ := exists_wholeDraft made
  have inNames : (other.schema, other.name) ∈ draft.names := by
    rw [← declarations_of_complete whole.complete]
    exact List.mem_map_of_mem member
  obtain ⟨entries, text, reached, found, titled⟩ := whole.assigned.titled rfl inNames
  rcases cases_of_titled given wellFormed reached found titled with root | definition | leftover
  · refine Or.inl ⟨root, ?_⟩
    have first := whole.rootFirst.subset List.mem_cons_self
    have same := List.inj_on_of_nodup_map whole.assigned.nodup inNames first root
    exact congrArg Prod.snd same
  · obtain ⟨definition, isDefinition, isNode⟩ := definition
    exact absurd isNode (foreign definition isDefinition)
  · exact Or.inr leftover

/-- Names survive exactly if no schema besides the definitions is declared under the name of one,
ignoring case. Such a schema, unless it is the root of all definitions, is a leftover: the copy of a
titled container that the search for structural dependencies did not meet. So names survive if that
search meets every titled container of each schema. -/
theorem names_survive_iff {g : Graph} {document : Value} {normal : Api.Normal} {source : Source}
    (given : Api.normalise g document = .ok normal)
    (made : wholeSource normal.graph normal.definitions = .ok source) :
    (NamesSurvive normal source ↔ ∀ other ∈ source.declarations,
      (∀ definition ∈ normal.definitions, definition.2 ≠ .node other.schema) →
      ∀ entry ∈ normal.naming.names, lower other.name ≠ lower entry.2) ∧
    (g.WellFormed → ∀ other ∈ source.declarations,
      (∀ definition ∈ normal.definitions, definition.2 ≠ .node other.schema) →
      (other.schema = normal.graph.size + 2 ∧ other.name = rootName) ∨
        IsLeftover g normal other.schema) ∧
    (g.WellFormed → (∀ place, ¬ IsLeftover g normal place) → NamesSurvive normal source) := by
  refine ⟨namesSurvive_iff_no_clash given made, fun wellFormed other member foreign =>
    cases_of_declared given made wellFormed member foreign, fun wellFormed none => ?_⟩
  refine (namesSurvive_iff_no_clash given made).2 fun other member foreign entry isEntry same => ?_
  rcases cases_of_declared given made wellFormed member foreign with ⟨_, name⟩ | leftover
  · -- the name of the root is reserved
    have reserved : lower rootName = lower Api.topLevelTitle := by decide +kernel
    rw [name, reserved] at same
    refine (Api.consistent_naming given).unreserved entry isEntry ?_
    rw [← same]
    exact List.mem_singleton_self _
  · exact none _ leftover

/-- A description with a schema `B` and, in a pattern of the schema `A`, another with a title. -/
def patternTitle (title : String) : Graph :=
  ⟨#[.mapping [(.str "openapi", .str "3.0.0"), (.str "components", .node 1)],
    .mapping [(.str "schemas", .node 2)],
    .mapping [(.str "A", .node 3), (.str "B", .node 6)],
    .mapping [(.str "type", .str "object"), (.str "patternProperties", .node 4)],
    .mapping [(.str "x", .node 5)],
    .mapping [(.str "title", .str title), (.str "type", .str "object")],
    .mapping [(.str "type", .str "string")]]⟩

/-- Whether a schema that is no definition is declared under the name of one. -/
def hasClash (normal : Api.Normal) (source : Source) : Bool :=
  source.declarations.any fun other =>
    normal.definitions.all (fun definition => definition.2 != .node other.schema) &&
      normal.naming.names.any fun entry => lower other.name == lower entry.2

theorem hasClash_eq_false {normal : Api.Normal} {source : Source} :
    hasClash normal source = false ↔ ∀ other ∈ source.declarations,
      (∀ definition ∈ normal.definitions, definition.2 ≠ .node other.schema) →
      ∀ entry ∈ normal.naming.names, lower other.name ≠ lower entry.2 := by
  simp [hasClash, List.any_eq_false]

theorem names_survive_other_title : ∃ normal source,
    Api.normalise (patternTitle "C") (.node 0) = .ok normal ∧
    wholeSource normal.graph normal.definitions = .ok source ∧ NamesSurvive normal source := by
  have computed : Api.inspect? (patternTitle "C") (.node 0) hasClash = some false := by
    decide +kernel
  obtain ⟨normal, source, given, made, none⟩ := Api.exists_of_inspect? computed
  exact ⟨normal, source, given, made,
    (names_survive_iff given made).1.2 (hasClash_eq_false.1 none)⟩

/-- A title that is left in a pattern takes the name of a definition. -/
theorem names_lost_to_pattern_title : ∃ normal source,
    Api.normalise (patternTitle "B") (.node 0) = .ok normal ∧
    wholeSource normal.graph normal.definitions = .ok source ∧ ¬ NamesSurvive normal source := by
  have computed : Api.inspect? (patternTitle "B") (.node 0) hasClash = some true := by
    decide +kernel
  obtain ⟨normal, source, given, made, some⟩ := Api.exists_of_inspect? computed
  refine ⟨normal, source, given, made, fun survive => ?_⟩
  rw [hasClash_eq_false.2 ((namesSurvive_iff_no_clash given made).1 survive)] at some
  cases some

end Typewright.Compile
