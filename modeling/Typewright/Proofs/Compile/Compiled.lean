import Typewright.Proofs.Compile.Chains
import Typewright.Proofs.Compile.Regular
import Typewright.Proofs.Compile.Returns

/-!
# What compiling a description comes to

Compiling all definitions of a description comes to copies of the schemas that its named schemas
render (`Compile.cases_of_compiled`). In a description without references all that it comes to leads
somewhere, so the definitions are compiled exactly if what it comes to can be read
(`Compile.wholeSource_returns_iff`). Where all rendered schemas are regular, they are
(`Compile.wholeSource_returns`).
-/

namespace Typewright

/-- The job of compiling all definitions of a normalised description together. -/
abbrev Api.Normal.job (normal : Api.Normal) : Compile.Job :=
  Compile.wholeJob normal.graph normal.definitions

namespace Compile

open Schema Standalone

/-! ## The root of all definitions -/

section

variable {g : Graph} {definitions : List (String × Value)}

/-- The root renders the definitions. -/
theorem asked_root : (wholeJob g definitions).asked (wholeJob g definitions).root =
    definitions.map (·.2) := by
  have interface := isInterface_rootEntries g
  have none : (wholeJob g definitions).declaredChoices? (wholeJob g definitions).root
      (rootEntries g) = Option.none := by
    rw [Job.declaredChoices?, Job.choices?_of_isInterface interface, ite_self]
  have index : (wholeJob g definitions).indexPositions (rootEntries g) = [] := by
    simp [Job.indexPositions, patternChildren, additionalChildren, rootEntries, Entries.get?_cons,
      Value.bool, Graph.isMapping, Graph.entries?, Graph.node?]
  rw [(Job.reads_of_no_choices get?_root none).2, positions_of_isInterface interface,
    Job.objectPositions, propertyChildren_of_entriesUnder entriesUnder_rootEntries, index,
    List.append_nil, definitionEntries, List.map_map]
  rfl

theorem regular_rootEntries : Regular (wholeJob g definitions).graph (rootEntries g) where
  required v held := by simp [rootEntries, Entries.get?_cons] at held
  properties v held := by
    obtain rfl : Value.node (g.size + 1) = v := by
      simpa [rootEntries, Entries.get?_cons] using held
    have listed := Graph.entries?_of_get? (addRoot_spec g definitions).2.2.2.1
    refine .inr ⟨_, listed, fun entry member => ?_⟩
    obtain ⟨definition, _, rfl⟩ := List.mem_map.1 member
    exact ⟨definition.1, rfl⟩
  patterns v held := by simp [rootEntries, Entries.get?_cons] at held
  type v held := by
    obtain rfl : Value.str "object" = v := by simpa [rootEntries, Entries.get?_cons] using held
    exact .inl ⟨_, rfl⟩
  choices v held := by simp [rootEntries, Entries.get?_cons] at held
  raw v held := by simp [rootEntries, Entries.get?_cons] at held
  constant v held := by simp [rootEntries, Entries.get?_cons] at held
  values v held := by simp [rootEntries, Entries.get?_cons] at held
  names list listed := by simp [rootEntries, Entries.get?_cons] at listed

end

/-! ## From what is compiled back to the document -/

section

variable {g : Graph} {document : Value} {normal : Api.Normal}
variable (given : Api.normalise g document = .ok normal) (wellFormed : g.WellFormed)
variable (holdsNone : HoldsNoReference g)

include given holdsNone in
/-- An own mapping of a named schema is no reference. -/
theorem plain_of_own {root id : Nat} (named : normal.naming.isNamed root = true)
    (own : KeptOwn g normal.naming root id) {entries : Entries}
    (found : g.get? id = some (.mapping entries)) : entries.has refKey = false := by
  rcases (own_of_kept own).cases_tail with same | ⟨before, _, held, _⟩
  · obtain ⟨_, others, there, plain⟩ := defined?_eq_some (plain_of_named given root named)
    rw [← same, found] at there
    cases there
    exact plain
  · have plain := holdsNone before id held
    rwa [Graph.hasField, Graph.field?_of_get? found] at plain

end

/-- The image of an own container of a named schema is in the graph that is compiled. A mapping is
rendered from the schema on. -/
structure IsCopied (g : Graph) (normal : Api.Normal) (root id : Nat) (image : Nat → Nat) :
    Prop where
  named : root ∈ normal.naming.namedSchemas
  placed : Placed g normal.job.graph normal.naming root image
  own : KeptOwn g normal.naming root id
  rendered : g.isMapping (.node id) = true → Relation.ReflTransGen (Rendered g) root id

/-- What stands at a place in the graph that is compiled is the copy of a container. -/
def HasSource (g : Graph) (normal : Api.Normal) (place : Nat) : Prop :=
  ∃ root id image, IsCopied g normal root id image ∧ image id = place

/-- A value in the graph that is compiled leads somewhere, and to no container but copies. -/
structure LeadsToCopies (g : Graph) (normal : Api.Normal) (v : Value) : Prop where
  follows : normal.job.Follows v
  source : ∀ place, normal.job.target? v = some place → HasSource g normal place

section

variable {g : Graph} {document : Value} {normal : Api.Normal}

theorem LeadsToCopies.scalar (s : Scalar) : LeadsToCopies g normal (.scalar s) where
  follows := Job.follows_scalar s
  source place target := by
    rw [Job.target?_scalar] at target
    cases target

theorem LeadsToCopies.of_followed {v : Value} {place : Nat} {hopped : Bool}
    (followed : follow normal.job.graph (.node normal.job.root) v = .ok (.node place, hopped))
    (source : HasSource g normal place) : LeadsToCopies g normal v where
  follows := ⟨_, followed⟩
  source other target := by
    rw [Job.target?, followed] at target
    rw [← Option.some.inj target]
    exact source

variable (given : Api.normalise g document = .ok normal) (wellFormed : g.WellFormed)

include given wellFormed in
/-- A definition is the copy of a named schema. -/
theorem hasSource_of_definition {i : String} {place : Nat}
    (member : (i, .node place) ∈ normal.definitions) : HasSource g normal place := by
  obtain ⟨root, named, image, same, mirrors⟩ := mirror_of_definition given wellFormed member
  cases same
  have isNamed := Naming.isNamed_iff.2 named
  exact ⟨root, root, image, ⟨named, placed_of_mirrors wellFormed (plain_of_named given) isNamed
    mirrors (addRoot_spec normal.graph normal.definitions).2.1, .refl, fun _ => .refl⟩, rfl⟩

variable (holdsNone : HoldsNoReference g) {root id : Nat} {image : Nat → Nat}
variable (copied : IsCopied g normal root id image)
include given holdsNone copied

/-- The copy of an own container is followed to itself. -/
theorem follow_copied : follow normal.job.graph (.node normal.job.root) (.node (image id)) =
    .ok (.node (image id), false) := by
  refine follow_of_no_reference ?_
  rcases copied.placed.images id copied.own with
    ⟨_, _, _, there, _⟩ | ⟨entries, copies, found, there, _, _⟩
  · simp [Graph.field?, Graph.entries?, Graph.node?, there]
  · rw [Graph.field?_of_get? there]
    cases held : copies.get? refKey with
    | none => rfl
    | some w =>
      obtain ⟨v, here, _⟩ :=
        copied.placed.exists_original_under copied.own found there (by decide) (by decide) held
      have isNamed := Naming.isNamed_iff.2 copied.named
      have plain := plain_of_own given holdsNone isNamed copied.own found
      rw [Entries.has, here] at plain
      cases plain

/-- A value inside a copy leads to copies. -/
theorem leads_of_hasCopy {entries : Entries} (found : g.get? id = some (.mapping entries))
    {v w : Value} (renders : ∀ next, defined? g v = some next → Rendered g id next)
    (hasCopy : HasCopy g normal.job.graph normal.naming root image v w) :
    LeadsToCopies g normal w := by
  obtain ⟨stands, own⟩ := hasCopy
  cases stands with
  | scalar s => exact .scalar s
  | @own next unnamed =>
    have inside : IsCopied g normal root next image := by
      refine ⟨copied.named, copied.placed, own next rfl unnamed, fun isMapping => ?_⟩
      obtain ⟨others, read⟩ := Option.isSome_iff_exists.1 isMapping
      have there := Graph.get?_of_entries? read
      have plain := plain_of_own given holdsNone (Naming.isNamed_iff.2 copied.named)
        (own next rfl unnamed) there
      refine (copied.rendered ?_).tail (renders next (defined?_of_get? there plain))
      rw [Graph.isMapping, Graph.entries?_of_get? found]
      rfl
    exact .of_followed (follow_copied given holdsNone inside) ⟨root, next, image, inside, rfl⟩
  | @reference next place name isId held apart =>
    obtain ⟨target, _, _, member, _, _, followed⟩ := follow_reference given isId held
    exact .of_followed followed (hasSource_of_definition given copied.placed.wellFormed member)

/-- What the copy of a schema renders leads to copies. -/
theorem leads_of_asked {v : Value} (asked : v ∈ normal.job.asked (image id)) :
    LeadsToCopies g normal v := by
  rcases copied.placed.images id copied.own with
    ⟨_, _, _, there, _⟩ | ⟨entries, copies, found, there, _, _⟩
  · rw [Job.asked_of_not_mapping fun entries same => by
      change normal.job.graph.get? (image id) = _ at same
      rw [there] at same
      cases same] at asked
    cases asked
  have position := Job.mem_positions_of_asked there asked
  rcases asked_of_mem_positions position with child | further | ⟨s, rfl⟩
  · rcases copied.placed.exists_original_child copied.own found there child with
      ⟨s, rfl⟩ | ⟨w, here, hasCopy⟩
    · exact .scalar s
    · refine leads_of_hasCopy given holdsNone copied found (fun next defined => .inl ?_) hasCopy
      rw [Search.Leads, definedChildren_of_get? found]
      exact List.mem_filterMap.2 ⟨w, here, defined⟩
  · rcases copied.placed.exists_original_further copied.own found there further with
      ⟨s, rfl⟩ | ⟨w, here, hasCopy⟩
    · exact .scalar s
    · refine leads_of_hasCopy given holdsNone copied found (fun next defined => .inr ?_) hasCopy
      obtain ⟨rfl, _⟩ := defined?_eq_some defined
      exact ⟨entries, found, here, defined⟩
  · exact .scalar s

end

/-! ## Whole runs -/

section

variable {g : Graph} {document : Value} {normal : Api.Normal}
variable (given : Api.normalise g document = .ok normal) (wellFormed : g.WellFormed)
variable (holdsNone : HoldsNoReference g)
include given wellFormed holdsNone

/-- The root of all definitions renders copies. -/
theorem leads_of_asked_root {v : Value} (asked : v ∈ normal.job.asked normal.job.root) :
    LeadsToCopies g normal v := by
  rw [asked_root] at asked
  obtain ⟨definition, member, rfl⟩ := List.mem_map.1 asked
  obtain ⟨root, _, image, isNode, _⟩ := mirror_of_definition given wellFormed member
  have listed : (definition.1, Value.node (image root)) ∈ normal.definitions := by
    rw [← isNode]
    exact member
  have source := hasSource_of_definition given wellFormed listed
  obtain ⟨_, _, _, copied, there⟩ := id source
  have followed := follow_copied given holdsNone copied
  rw [there] at followed
  rw [isNode]
  exact .of_followed followed source

/-- Compiling all definitions comes to the root and to copies, and what is rendered there leads
somewhere. -/
theorem cases_of_compiled {place : Nat}
    (path : Relation.ReflTransGen normal.job.Compiles normal.job.root place) :
    (place = normal.job.root ∨ HasSource g normal place) ∧
      ∀ v ∈ normal.job.asked place, normal.job.Follows v := by
  have leads : ∀ place, place = normal.job.root ∨ HasSource g normal place →
      ∀ v ∈ normal.job.asked place, LeadsToCopies g normal v := by
    intro place either v asked
    rcases either with rfl | ⟨_, _, _, copied, rfl⟩
    · exact leads_of_asked_root given wellFormed holdsNone asked
    · exact leads_of_asked given holdsNone copied asked
  have either : place = normal.job.root ∨ HasSource g normal place := by
    induction path with
    | refl => exact .inl rfl
    | tail _ step ih =>
      obtain ⟨v, asked, target⟩ := List.mem_filterMap.1 step
      exact .inr ((leads _ ih v asked).source _ target)
  exact ⟨either, fun v asked => (leads place either v asked).follows⟩

/-- All definitions of a description without references are compiled exactly if what this comes to
can be read. -/
theorem wholeSource_returns_iff :
    (∃ source, wholeSource normal.graph normal.definitions = .ok source) ↔
      ∀ place, Relation.ReflTransGen normal.job.Compiles normal.job.root place →
        normal.job.Reads place := by
  have titled : normal.job.graph.field? (.node normal.job.root) "title" =
      some (.str Api.topLevelTitle) := by
    rw [Graph.field?_of_get? get?_root]
    simp [rootEntries, Entries.get?_cons]
  have runs : (∃ draft, (Job.run normal.job).run {} = .ok ((), draft)) ↔
      ∀ place, Relation.ReflTransGen normal.job.Compiles normal.job.root place →
        normal.job.Clean place :=
    run_returns_iff rfl rfl (chainsEnd_of_holdsNoReference given wellFormed holdsNone) titled
      (field?_root _ _)
  have made : (∃ source, wholeSource normal.graph normal.definitions = .ok source) ↔
      ∃ draft, (Job.run normal.job).run {} = .ok ((), draft) := by
    constructor
    · intro returns
      obtain ⟨source, compiled⟩ := returns
      obtain ⟨draft, ran, _⟩ := exists_draft compiled
      exact ⟨draft, ran⟩
    · intro returns
      obtain ⟨draft, ran⟩ := returns
      rw [wholeSource_eq, ran]
      exact ⟨_, rfl⟩
  rw [made, runs]
  refine forall₂_congr fun place path => ⟨fun clean => clean.reads, fun reads => ⟨reads, ?_⟩⟩
  exact (cases_of_compiled given wellFormed holdsNone path).2

/-- All definitions are compiled if what the named schemas of the description render is regular. -/
theorem wholeSource_returns (regular : ∀ schema ∈ normal.naming.namedSchemas, ∀ id,
      Relation.ReflTransGen (Rendered g) schema id → ∀ entries,
        g.get? id = some (.mapping entries) → Regular g entries) :
    ∃ source, wholeSource normal.graph normal.definitions = .ok source := by
  rw [wholeSource_returns_iff given wellFormed holdsNone]
  intro place path entries found
  refine readsEntries_of_regular ?_
  rcases (cases_of_compiled given wellFormed holdsNone path).1 with
    rfl | ⟨root, id, image, copied, rfl⟩
  · rw [get?_root] at found
    cases found
    exact regular_rootEntries
  · rcases copied.placed.images id copied.own with
      ⟨_, _, _, there, _⟩ | ⟨originals, copies, source, there, _, _⟩
    · rw [there] at found
      cases found
    · rw [there] at found
      cases found
      have isMapping : g.isMapping (.node id) = true := by
        rw [Graph.isMapping, Graph.entries?_of_get? source]
        rfl
      exact copied.placed.regular_image copied.own source there
        (regular root copied.named id (copied.rendered isMapping) originals source)

end

end Compile

end Typewright
