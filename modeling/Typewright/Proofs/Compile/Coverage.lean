import Typewright.Proofs.Compile.Met
import Typewright.Proofs.Compile.Names
import Typewright.Proofs.Model.Dependencies
import Typewright.Proofs.Schema.Originals

/-!
# Whether dependencies cover what is mentioned

The declaration of a definition mentions other definitions where the copy that it is compiled from
holds references. Read back to the document, each mention is the end of a path through schemas
without a name, along what the compiler takes for schemas (`Compile.path_of_bodyMet`). Dependencies
are found along structural children alone, so a mention is a dependency unless its path goes through
a pattern or through the additional items of a tuple (`Compile.covered_unless_hidden`).
-/

namespace Typewright

/-! ## Paths in a document -/

namespace Schema

/-- Whether no mapping holds a text under the keyword of a reference. -/
def isDereferenced (g : Graph) : Bool :=
  g.nodes.toList.all fun
    | .mapping entries => ((entries.get? refKey).bind Value.str?).isNone
    | .sequence _ => true

theorem not_text_of_isDereferenced {g : Graph} (dereferenced : isDereferenced g = true) {id : Nat}
    {entries : Entries} (found : g.get? id = some (.mapping entries)) (text : String) :
    entries.get? refKey ≠ some (.str text) := by
  intro held
  have none := Graph.of_all_nodes dereferenced found
  simp [held, Value.str, Value.str?] at none

/-- A schema that another holds where the search for structural dependencies does not look. -/
def Further (g : Graph) (a b : Nat) : Prop :=
  ∃ entries, g.get? a = some (.mapping entries) ∧ .node b ∈ furtherChildren g entries ∧
    defined? g (.node b) = some b

/-- Whether no mapping holds anything where the search for structural dependencies does not look. -/
def hasNoFurther (g : Graph) : Bool :=
  g.nodes.toList.all fun
    | .mapping entries => (furtherChildren g entries).isEmpty
    | .sequence _ => true

theorem not_further_of_hasNoFurther {g : Graph} (none : hasNoFurther g = true) (a b : Nat) :
    ¬ Further g a b := by
  rintro ⟨entries, found, further, _⟩
  have empty := Graph.of_all_nodes none found
  rw [List.isEmpty_iff] at empty
  rw [empty] at further
  cases further

/-- A schema that is written out or mentioned where another is written out. -/
def Rendered (g : Graph) (a b : Nat) : Prop :=
  Search.Leads (definedChildren g) a b ∨ Further g a b

/-- A schema without a name that is written out where another is. -/
def Inline (g : Graph) (naming : Naming) (a b : Nat) : Prop :=
  Rendered g a b ∧ naming.isNamed b = false

/-- A path from a schema to a named one through schemas without a name. -/
def Mentioned (g : Graph) (naming : Naming) (s t : Nat) : Prop :=
  ∃ last, Relation.ReflTransGen (Inline g naming) s last ∧ Rendered g last t

/-- A path to a named schema that goes through a pattern or through additional items. -/
def Hidden (g : Graph) (naming : Naming) (s t : Nat) : Prop :=
  ∃ a b, Relation.ReflTransGen (Inline g naming) s a ∧ Further g a b ∧
    (b = t ∨ naming.isNamed b = false ∧ Mentioned g naming b t)

/-- A path that is not hidden is a structural one. -/
theorem path_or_hidden {g : Graph} {naming : Naming} {s t : Nat}
    (mentioned : Mentioned g naming s t) :
    Relation.ReflTransGen (Search.Leads (definedChildren g)) s t ∨ Hidden g naming s t := by
  obtain ⟨last, path, rendered⟩ := mentioned
  induction path using Relation.ReflTransGen.head_induction_on with
  | refl =>
    rcases rendered with structural | further
    · exact Or.inl (.single structural)
    · exact Or.inr ⟨last, t, .refl, further, Or.inl rfl⟩
  | @head a b step path ih =>
    obtain ⟨structural | further, unnamed⟩ := step
    · rcases ih with whole | ⟨c, d, front, hidden, rest⟩
      · exact Or.inl (.head structural whole)
      · exact Or.inr ⟨c, d, .head ⟨Or.inl structural, unnamed⟩ front, hidden, rest⟩
    · exact Or.inr ⟨a, b, .refl, further, Or.inr ⟨unnamed, last, path, rendered⟩⟩

end Schema

namespace Compile

open Schema Text

/-! ## Following references -/

theorem not_met_scalar {job : Job} {isNamed : Bool} {s : Scalar} {schema : Nat} :
    ¬ Met job isNamed (.scalar s) schema := by
  have followed : follow job.graph (.node job.root) (.scalar s) = .ok (.scalar s, false) :=
    follow_of_no_reference rfl
  intro met
  cases met with
  | here other => rw [followed] at other; cases other
  | inside other => rw [followed] at other; cases other

section

variable {g : Graph} {document : Value} {normal : Api.Normal}
variable (given : Api.normalise g document = .ok normal)
include given

theorem plain_of_named (id : Nat) (named : normal.naming.isNamed id = true) :
    defined? g (.node id) = some id :=
  Api.defined_of_isNamed given named

/-- A definition is found at one place, and no other is found there. -/
theorem id_of_place {i j : String} {place : Nat} (first : (i, .node place) ∈ normal.definitions)
    (second : (j, .node place) ∈ normal.definitions) : i = j := by
  have titled : ∀ {id}, (id, .node place) ∈ normal.definitions →
      ∃ entries name, (wholeJob normal.graph normal.definitions).graph.get? place =
        some (.mapping entries) ∧ entries.get? "title" = some (.str name) ∧ id = lower name := by
    intro id member
    obtain ⟨entry, isEntry, same⟩ := name_of_definition given member
    dsimp only at same
    rw [same] at member
    obtain ⟨other, entries, inDefinitions, found, title, _⟩ := definition_of_name given isEntry
    cases definition_unique given member inDefinitions
    exact ⟨entries, entry.2, found, title, same⟩
  obtain ⟨entries, m, found, titleFirst, rfl⟩ := titled first
  obtain ⟨others, n, foundToo, titleSecond, rfl⟩ := titled second
  rw [found] at foundToo
  cases foundToo
  rw [titleFirst] at titleSecond
  cases titleSecond
  rfl

omit given in
/-- What a reference to a definition holds. -/
theorem field?_reference {place : Nat} {name : String}
    (held : (wholeJob normal.graph normal.definitions).graph.get? place =
      some (.mapping (Standalone.referenceTo name))) :
    (wholeJob normal.graph normal.definitions).graph.field? (.node place) refKey =
      some (.str (Standalone.definitionsPointer ++ name)) := by
  rw [Graph.field?, Graph.entries?_of_get? held]
  simp [Standalone.referenceTo, Entries.get?_cons]

/-- The reference to the id of a named schema resolves to its definition, which has a title and is no
reference. -/
theorem resolve_reference {id : Nat} {name : String}
    (isNamed : normal.naming.idOf? id = some name) :
    ∃ target entries text, (name, .node target) ∈ normal.definitions ∧
      (wholeJob normal.graph normal.definitions).graph.get? target = some (.mapping entries) ∧
      entries.get? "title" = some (.str text) ∧
      (wholeJob normal.graph normal.definitions).graph.field? (.node target) refKey = none ∧
      resolve (wholeJob normal.graph normal.definitions).graph
        (.node (wholeJob normal.graph normal.definitions).root)
        (Standalone.definitionsPointer ++ name) = .ok (.node target) := by
  obtain ⟨text, found, rfl⟩ := Option.map_eq_some_iff.1 isNamed
  have entry := Naming.mem_names_of_nameOf? found
  obtain ⟨target, entries, inDefinitions, there, titled, noRef⟩ := definition_of_name given entry
  have consistent := Api.consistent_naming given
  have isName := consistent.isName _ entry
  have resolved := resolve_definition (g := normal.graph) (nodup_ids given) inDefinitions
    isName.lower_ne_empty fun c inId => isName.isPart_of_mem_lower inId
  rw [(addRoot_spec normal.graph normal.definitions).1] at resolved
  refine ⟨target, entries, text, inDefinitions, there, titled, ?_, resolved⟩
  rw [Graph.field?_of_get? there]
  exact Entries.get?_eq_none_iff_not_has.2 noRef

/-- The reference to the id of a named schema leads to its definition, which has a title. -/
theorem follow_reference {id place : Nat} {name : String}
    (isNamed : normal.naming.idOf? id = some name)
    (held : (wholeJob normal.graph normal.definitions).graph.get? place =
      some (.mapping (Standalone.referenceTo name))) :
    ∃ target entries text, (name, .node target) ∈ normal.definitions ∧
      (wholeJob normal.graph normal.definitions).graph.get? target = some (.mapping entries) ∧
      entries.get? "title" = some (.str text) ∧
      follow (wholeJob normal.graph normal.definitions).graph
        (.node (wholeJob normal.graph normal.definitions).root) (.node place) =
          .ok (.node target, true) := by
  obtain ⟨target, entries, text, inDefinitions, there, titled, ends, resolved⟩ :=
    resolve_reference given isNamed
  exact ⟨target, entries, text, inDefinitions, there, titled,
    follow_of_reference (field?_reference held) resolved ends⟩

end

/-! ## From a mention back to the document -/

section

variable {g : Graph} {document : Value} {normal : Api.Normal} {root : Nat} {image : Nat → Nat}
variable (given : Api.normalise g document = .ok normal)
variable (dereferenced : isDereferenced g = true)
variable (placed : Standalone.Placed g (wholeJob normal.graph normal.definitions).graph
  normal.naming root image)

include dereferenced placed in
/-- Where the copy of an own container is followed to a mapping, it is that mapping, and so was its
original. -/
theorem follow_image {id place : Nat} {hopped : Bool} {copies : Entries}
    (own : Standalone.KeptOwn g normal.naming root id)
    (followed : follow (wholeJob normal.graph normal.definitions).graph
      (.node (wholeJob normal.graph normal.definitions).root) (.node (image id)) =
        .ok (.node place, hopped))
    (found : (wholeJob normal.graph normal.definitions).graph.get? place =
      some (.mapping copies)) :
    place = image id ∧ hopped = false ∧
      ∃ entries, g.get? id = some (.mapping entries) ∧ entries.has refKey = false := by
  rcases placed.images id own with
    ⟨_, _, _, there, _⟩ | ⟨entries, list, isMapping, there, keys, _⟩
  · rw [follow_of_no_reference (by simp [Graph.field?, Graph.entries?, Graph.node?, there])]
      at followed
    cases followed
    rw [there] at found
    cases found
  · have read : (wholeJob normal.graph normal.definitions).graph.field? (.node (image id)) refKey =
        list.get? refKey := by
      rw [Graph.field?, Graph.entries?_of_get? there]
      rfl
    cases reference : list.get? refKey with
    | none =>
      rw [reference] at read
      rw [follow_of_no_reference read] at followed
      cases followed
      refine ⟨rfl, rfl, entries, isMapping, Entries.has_eq_false_iff.2 fun entry member same => ?_⟩
      obtain ⟨copy, present, key⟩ := keys entry member (by rw [same]; decide)
        (by rw [same]; decide)
      exact Entries.get?_eq_none_iff.1 reference copy present (by rw [key, same])
    | some ref =>
      -- what is followed is a text, and so was its original
      rw [reference] at read
      rw [follow, followFrom, read] at followed
      obtain ⟨text, isText, _⟩ := exists_of_bind_ok followed
      obtain ⟨v, held, hasCopy⟩ := placed.exists_original_under own isMapping there (by decide)
        (by decide) reference
      have same : v = .str text := by
        obtain ⟨stands, _⟩ := hasCopy
        cases stands with
        | scalar s =>
          cases s <;> cases isText
          rfl
        | own _ => cases isText
        | reference _ _ _ => cases isText
      rw [same] at held
      exact absurd held (not_text_of_isDereferenced dereferenced isMapping text)

include placed in
/-- What the copy of an own container takes for a schema is mentioned along the container. -/
theorem mentioned_of_asked {id t place : Nat} {entries copies : Entries} {w : Value}
    (own : Standalone.KeptOwn g normal.naming root id)
    (isMapping : g.get? id = some (.mapping entries))
    (held : (wholeJob normal.graph normal.definitions).graph.get? (image id) =
      some (.mapping copies))
    (asked : Asked (wholeJob normal.graph normal.definitions).graph copies w)
    (met : Met (wholeJob normal.graph normal.definitions) true w place)
    (inner : ∀ v, Standalone.HasCopy g (wholeJob normal.graph normal.definitions).graph
      normal.naming root image v w → ∃ next, defined? g v = some next ∧
        (next = t ∨ normal.naming.isNamed next = false ∧ Mentioned g normal.naming next t)) :
    Mentioned g normal.naming id t := by
  have through : ∀ next, Rendered g id next →
      (next = t ∨ normal.naming.isNamed next = false ∧ Mentioned g normal.naming next t) →
      Mentioned g normal.naming id t := by
    rintro next rendered (rfl | ⟨unnamed, last, path, ends⟩)
    · exact ⟨id, .refl, rendered⟩
    · exact ⟨last, .head ⟨rendered, unnamed⟩ path, ends⟩
  rcases asked with child | further | ⟨s, rfl⟩
  · rcases placed.exists_original_child own isMapping held child with ⟨s, rfl⟩ | ⟨v, here, hasCopy⟩
    · exact absurd met not_met_scalar
    · obtain ⟨next, defined, rest⟩ := inner v hasCopy
      refine through next (Or.inl ?_) rest
      rw [Search.Leads, definedChildren_of_get? isMapping]
      exact List.mem_filterMap.2 ⟨v, here, defined⟩
  · rcases placed.exists_original_further own isMapping held further with
      ⟨s, rfl⟩ | ⟨v, here, hasCopy⟩
    · exact absurd met not_met_scalar
    · obtain ⟨next, defined, rest⟩ := inner v hasCopy
      obtain ⟨rfl, _⟩ := defined?_eq_some defined
      exact through next (Or.inr ⟨entries, isMapping, here, defined⟩) rest
  · exact absurd met not_met_scalar

variable (alone : ∀ own, Standalone.KeptOwn g normal.naming root own → ∀ other,
  (other, .node (image own)) ∈ normal.definitions → own = root)
include given dereferenced placed alone

/-- If the copy of a value meets a definition, there is a path from the value to its schema. -/
theorem path_of_met {isNamed : Bool} {v w : Value} {t place : Nat} {j : String}
    (met : Met (wholeJob normal.graph normal.definitions) isNamed w place)
    (hasCopy : Standalone.HasCopy g (wholeJob normal.graph normal.definitions).graph normal.naming
      root image v w)
    (isId : normal.naming.idOf? t = some j) (listed : (j, .node place) ∈ normal.definitions) :
    ∃ id, defined? g v = some id ∧
      (id = t ∨ normal.naming.isNamed id = false ∧ Mentioned g normal.naming id t) := by
  induction met generalizing v with
  | @here isNamed hopped w schema copies text followed found _ _ =>
    obtain ⟨stands, own⟩ := hasCopy
    cases stands with
    | scalar s =>
      rw [follow_of_no_reference rfl] at followed
      cases followed
    | @own id unnamed =>
      -- no definition stands among the own containers but that of the root
      obtain ⟨same, _⟩ := follow_image dereferenced placed (own id rfl unnamed) followed found
      rw [same] at listed
      have isRoot := alone id (own id rfl unnamed) j listed
      rw [isRoot, placed.named] at unnamed
      cases unnamed
    | @reference id _ name named held _ =>
      obtain ⟨target, _, _, inDefinitions, _, _, ends⟩ :=
        follow_reference given named held
      rw [ends] at followed
      cases followed
      have sameId := id_of_place given inDefinitions listed
      rw [sameId] at named
      have same := (Api.consistent_naming given).idOf?_injective named isId
      exact ⟨id, placed.plain id (Naming.isNamed_of_idOf? named), Or.inl same⟩
  | @inside isNamed hopped w schema copies next met followed found untitled asked later ih =>
    obtain ⟨stands, own⟩ := hasCopy
    cases stands with
    | scalar s =>
      rw [follow_of_no_reference rfl] at followed
      cases followed
    | @own id unnamed =>
      have isOwn := own id rfl unnamed
      obtain ⟨rfl, _, entries, isMapping, noRef⟩ :=
        follow_image dereferenced placed isOwn followed found
      refine ⟨id, defined?_of_get? isMapping noRef, Or.inr ⟨unnamed, ?_⟩⟩
      exact mentioned_of_asked placed isOwn isMapping found asked later fun _ copied =>
        ih copied listed
    | @reference id _ name named held _ =>
      obtain ⟨target, others, text, _, there, titled, ends⟩ :=
        follow_reference given named held
      rw [ends] at followed
      cases followed
      rw [there] at found
      cases found
      exact absurd titled (untitled (Bool.or_true _) text)

/-- If the declaration of a definition meets another definition, there is a path from the schema of
the one to that of the other. -/
theorem path_of_bodyMet {t place : Nat} {j : String}
    (met : BodyMet (wholeJob normal.graph normal.definitions) (image root) place)
    (isId : normal.naming.idOf? t = some j) (listed : (j, .node place) ∈ normal.definitions) :
    Mentioned g normal.naming root t := by
  have inside : ∀ {copies w}, (wholeJob normal.graph normal.definitions).graph.get? (image root) =
      some (.mapping copies) → Asked (wholeJob normal.graph normal.definitions).graph copies w →
      Met (wholeJob normal.graph normal.definitions) true w place →
      Mentioned g normal.naming root t := by
    intro copies w found asked later
    obtain ⟨_, entries, isMapping, _⟩ := defined?_eq_some (placed.plain root placed.named)
    exact mentioned_of_asked placed .refl isMapping found asked later fun v hasCopy =>
      path_of_met given dereferenced placed alone later hasCopy isId listed
  rcases met with ⟨entries, w, found, asked, later⟩ | met
  · exact inside found asked later
  · cases met with
    | here followed found _ wanted =>
      obtain ⟨_, rfl, _⟩ := follow_image dereferenced placed .refl followed found
      cases wanted
    | inside followed found _ asked later =>
      obtain ⟨rfl, _, _⟩ := follow_image dereferenced placed .refl followed found
      exact inside found asked later

end

/-! ## Coverage -/

/-- The declaration of one definition mentions the declared name of another. -/
def Mentions (normal : Api.Normal) (source : Source) (i j : String) : Prop :=
  ∃ d ∈ source.declarations, ∃ e ∈ source.declarations,
    (i, .node d.schema) ∈ normal.definitions ∧ (j, .node e.schema) ∈ normal.definitions ∧
      e.name ∈ d.body.names

/-- What the declaration of a definition mentions besides itself is among the dependencies of the
schema. -/
def Covered (normal : Api.Normal) (source : Source) : Prop :=
  ∀ s i j, normal.naming.idOf? s = some i → Mentions normal source i j →
    j = i ∨ j ∈ Model.dependenciesOf normal.graph normal.naming s i

section

variable {g : Graph} {document : Value} {normal : Api.Normal} {source : Source}
variable (given : Api.normalise g document = .ok normal)
include given

/-- Every definition is that of a named schema. -/
theorem exists_idOf?_of_definition {id : String} {v : Value}
    (member : (id, v) ∈ normal.definitions) : ∃ schema, normal.naming.idOf? schema = some id := by
  obtain ⟨entry, isEntry, rfl⟩ := name_of_definition given member
  have found := (Api.consistent_naming given).nameOf?_eq_some_iff.2
    (show (entry.1, entry.2) ∈ _ from isEntry)
  exact ⟨entry.1, by rw [Naming.idOf?, found]; rfl⟩

variable (made : wholeSource normal.graph normal.definitions = .ok source)
variable (wellFormed : g.WellFormed)
include wellFormed

include made in
/-- A mention comes from a path through schemas without a name. -/
theorem path_of_mentions (dereferenced : isDereferenced g = true) {s t : Nat} {i j : String}
    (isSource : normal.naming.idOf? s = some i) (isTarget : normal.naming.idOf? t = some j)
    (mentions : Mentions normal source i j) : Mentioned g normal.naming s t := by
  obtain ⟨d, isDeclared, e, other, first, second, mentioned⟩ := mentions
  have named := Naming.isNamed_of_idOf? isSource
  obtain ⟨id, image, isId, inDefinitions, mirrors, _, alone⟩ := Standalone.exists_mirror wellFormed
    (Api.consistent_naming given) (plain_of_named given) named
  rw [← (definitions_eq given).2] at inDefinitions alone
  rw [← (definitions_eq given).1] at mirrors
  rw [isSource] at isId
  cases isId
  have same := definition_unique given first inDefinitions
  have met := bodyMet_of_mem_names made isDeclared other mentioned
  rw [Value.node.inj same] at met
  have placed := Standalone.placed_of_mirrors wellFormed (plain_of_named given) named mirrors
    (addRoot_spec normal.graph normal.definitions).2.1
  exact path_of_bodyMet given dereferenced placed alone met isTarget second

/-- What a structural path leads to is a dependency. -/
theorem mem_dependenciesOf {s t : Nat} {i j : String} (isSource : normal.naming.idOf? s = some i)
    (isTarget : normal.naming.idOf? t = some j)
    (path : Relation.ReflTransGen (Search.Leads (definedChildren g)) s t) :
    j = i ∨ j ∈ Model.dependenciesOf normal.graph normal.naming s i := by
  by_cases own : j = i
  · exact Or.inl own
  have defined := plain_of_named given s (Naming.isNamed_of_idOf? isSource)
  have keeps : g.Extends normal.graph := by
    rw [(definitions_eq given).1]
    exact (Standalone.copyAll_spec normal.naming normal.naming.namedSchemas g).1
  refine Or.inr ((Model.mem_dependenciesOf (Api.consistent_naming given)).2 ⟨own, t, isTarget, ?_⟩)
  rw [mem_dependencies_extends keeps wellFormed defined, mem_dependencies_iff defined]
  exact path

include made in
/-- What the declaration of a definition mentions is the definition itself, a dependency, or hidden:
found on a path through a pattern or through additional items. Without patterns and additional items
dependencies cover what is mentioned. -/
theorem covered_unless_hidden (dereferenced : isDereferenced g = true) :
    (∀ s t i j, normal.naming.idOf? s = some i → normal.naming.idOf? t = some j →
      Mentions normal source i j → j = i ∨
        j ∈ Model.dependenciesOf normal.graph normal.naming s i ∨ Hidden g normal.naming s t) ∧
    ((∀ a b, ¬ Further g a b) → Covered normal source) := by
  have cases_of_mentions : ∀ s t i j, normal.naming.idOf? s = some i →
      normal.naming.idOf? t = some j → Mentions normal source i j → j = i ∨
        j ∈ Model.dependenciesOf normal.graph normal.naming s i ∨ Hidden g normal.naming s t := by
    intro s t i j isSource isTarget mentions
    rcases path_or_hidden (path_of_mentions given made wellFormed dereferenced isSource isTarget
      mentions) with structural | hidden
    · exact (mem_dependenciesOf given wellFormed isSource isTarget structural).imp_right Or.inl
    · exact Or.inr (Or.inr hidden)
  refine ⟨cases_of_mentions, fun none s i j isSource mentions => ?_⟩
  obtain ⟨_, _, _, _, _, inDefinitions, _⟩ := id mentions
  obtain ⟨t, isTarget⟩ := exists_idOf?_of_definition given inDefinitions
  rcases cases_of_mentions s t i j isSource isTarget mentions with own | listed | hidden
  · exact Or.inl own
  · exact Or.inr listed
  · obtain ⟨a, b, _, further, _⟩ := hidden
    exact absurd further (none a b)

end

/-- A description with a schema `B` and a schema `A` that refers to `B` in a mapping under the given
keyword. -/
def referenceUnder (keyword : String) : Graph :=
  ⟨#[.mapping [(.str "openapi", .str "3.0.0"), (.str "components", .node 1)],
    .mapping [(.str "schemas", .node 2)],
    .mapping [(.str "A", .node 3), (.str "B", .node 5)],
    .mapping [(.str "type", .str "object"), (.str keyword, .node 4)],
    .mapping [(.str "x", .node 5)],
    .mapping [(.str "type", .str "string")]]⟩

/-- Whether the declaration of one definition mentions the declared name of another. -/
def mentions (normal : Api.Normal) (source : Source) (i j : String) : Bool :=
  source.declarations.any fun d => source.declarations.any fun e =>
    normal.definitions.contains (i, .node d.schema) &&
      normal.definitions.contains (j, .node e.schema) && d.body.names.contains e.name

theorem mentions_iff {normal : Api.Normal} {source : Source} {i j : String} :
    mentions normal source i j = true ↔ Mentions normal source i j := by
  simp [mentions, Mentions, and_assoc]

theorem covered_property : ∃ normal source,
    Api.normalise (referenceUnder "properties") (.node 0) = .ok normal ∧
    wholeSource normal.graph normal.definitions = .ok source ∧
    Mentions normal source "a" "b" ∧ Covered normal source := by
  have computed : Api.inspect? (referenceUnder "properties") (.node 0)
      (fun normal source => mentions normal source "a" "b") = some true := by
    decide +kernel
  obtain ⟨normal, source, given, made, mentioned⟩ := Api.exists_of_inspect? computed
  have covered := covered_unless_hidden given made
    (Graph.wellFormed_of_checked (by decide +kernel)) (by decide +kernel)
  exact ⟨normal, source, given, made, mentions_iff.1 mentioned,
    covered.2 (not_further_of_hasNoFurther (by decide +kernel))⟩

/-- What is mentioned under a pattern need not be a dependency. -/
theorem not_covered_pattern : ∃ normal source,
    Api.normalise (referenceUnder "patternProperties") (.node 0) = .ok normal ∧
    wholeSource normal.graph normal.definitions = .ok source ∧ ¬ Covered normal source := by
  have computed : Api.inspect? (referenceUnder "patternProperties") (.node 0)
      (fun normal source => mentions normal source "a" "b" &&
        normal.naming.idOf? 3 == some "a" &&
        !(Model.dependenciesOf normal.graph normal.naming 3 "a").contains "b") = some true := by
    decide +kernel
  obtain ⟨normal, source, given, made, facts⟩ := Api.exists_of_inspect? computed
  simp only [Bool.and_eq_true, beq_iff_eq, Bool.not_eq_true', List.contains_eq_mem,
    decide_eq_false_iff_not] at facts
  obtain ⟨⟨mentioned, isId⟩, missing⟩ := facts
  refine ⟨normal, source, given, made, fun covered => ?_⟩
  rcases covered 3 "a" "b" isId (mentions_iff.1 mentioned) with same | listed
  · revert same
    decide
  · exact missing listed

end Compile

end Typewright
