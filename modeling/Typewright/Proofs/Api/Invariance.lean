import Typewright.Proofs.Api.Closure
import Typewright.Proofs.Api.Renumbered
import Typewright.Proofs.Compile.Chains
import Typewright.Proofs.Compile.Renumbered
import Typewright.Proofs.Document.Copies

/-!
# What a result depends on

The models and endpoints of a description do not depend on the numbers of its containers, nor on
containers that stand elsewhere in the graph (`Api.docs_renumber`). Of the graph that it stands in
only the containers count that it leads to (`Api.Described.docs_of_copies`), and of what stands at its top only
four sections (`Api.docs_congr`).
-/

namespace Typewright

/-! ## Models -/

namespace Model

section

variable {g h : Graph} {f : Nat → Nat} (renumbers : g.Renumbers h f)
include renumbers

theorem dependenciesOf_renumber (naming : Naming) (schema : Nat) (own : String) :
    dependenciesOf h (naming.renumber f) (f schema) own = dependenciesOf g naming schema own := by
  have ids : ((Schema.dependencies g (.node schema)).map f).filterMap (naming.renumber f).idOf? =
      (Schema.dependencies g (.node schema)).filterMap naming.idOf? := by
    rw [List.filterMap_map]
    exact List.filterMap_congr fun id _ => naming.idOf?_renumber renumbers.injective id
  rw [dependenciesOf, dependenciesOf, ← Value.renumber_node,
    Schema.dependencies_renumber renumbers, ids]

end

variable {normal other : Api.Normal} {f : Nat → Nat} (renumbers : normal.Renumbers other f)
include renumbers

theorem ofDefinition_renumber :
    ofDefinition (Api.contextOf other) = ofDefinition (Api.contextOf normal) := by
  funext definition
  unfold ofDefinition
  simp only [Api.contextOf, renumbers.generatedIds, renumbers.schemas, renumbers.naming,
    List.find?_map, Function.comp_def, Option.map_map]
  cases normal.schemas.find? fun entry => entry.1 == Text.lower definition.title with
  | none => rfl
  | some entry =>
    simp only [Option.map_some, dependenciesOf_renumber renumbers.graph]

theorem extract_renumber (source : String) :
    extract (Api.contextOf other) source = extract (Api.contextOf normal) source := by
  unfold extract ofDefinitions
  rw [ofDefinition_renumber renumbers]
  rfl

end Model

namespace Api

/-! ## Other numbers -/

theorem docs_builtin_eq (g : Graph) (document : Value) : docs g document .builtin = (do
    let normal ← normalise g document
    let (text, warnings) ← (Compile.wholeSource normal.graph normal.definitions).map
      fun source => (source.text, source.warnings)
    let (models, more) ← Model.extract (contextOf normal) text
    return { models, endpoints := normal.endpoints, warnings := warnings ++ more, run := none }) := by
  unfold docs
  refine congrArg _ (funext fun normal => ?_)
  change ((Compile.wholeSource normal.graph normal.definitions >>= fun source => _) >>= _) = _
  cases Compile.wholeSource normal.graph normal.definitions <;> rfl

/-- The same description under other numbers has the same models, endpoints and warnings, or is
refused for the same reason. -/
theorem docs_renumber {g h : Graph} {f : Nat → Nat} (renumbers : g.Renumbers h f)
    (wellFormed : g.WellFormed) (holdsNone : Schema.HoldsNoReference g) (document : Value) :
    docs h (document.renumber f) .builtin = docs g document .builtin := by
  rw [docs_builtin_eq, docs_builtin_eq]
  rcases normalise_renumber renumbers wellFormed document with
    ⟨e, first, second⟩ | ⟨normal, other, given, found, same⟩
  · rw [first, second]
  · have source := Compile.wholeSource_renumber same.graph normal.definitions
      (Compile.chainsEnd_of_holdsNoReference given wellFormed holdsNone)
    rw [← same.definitions] at source
    rw [given, found]
    change ((Compile.wholeSource other.graph other.definitions).map _ >>= _) = _
    rw [source]
    simp only [Model.extract_renumber same, same.endpoints]
    rfl

/-! ## Copies -/

/-- Containers of a graph that lead to one another only, hold no key twice and are no references. -/
structure Described (g : Graph) (ids : List Nat) : Prop extends g.SelfContained ids where
  distinct : ∀ id ∈ ids, ∀ entries, g.get? id = some (.mapping entries) → entries.Distinct
  plain : ∀ id ∈ ids, g.hasField Schema.refKey id = false

namespace Described

variable {g h : Graph} {ids : List Nat} {r : Nat → Nat} (own : Described g ids)
include own

theorem wellFormed_gather : (g.gather ids).WellFormed := by
  constructor
  · intro place child leads
    obtain ⟨id, member, rfl⟩ := own.exists_of_mem_successors leads
    rw [Graph.size_gather]
    exact List.idxOf_lt_length_of_mem member
  · intro place entries there
    obtain ⟨id, member, old, _, found, same⟩ := own.exists_of_get?_gather there
    cases old with
    | sequence items => cases same
    | mapping entries =>
      cases same
      exact List.pairwise_map.2 (own.distinct id member entries found)

theorem holdsNone_gather : Schema.HoldsNoReference (g.gather ids) := by
  intro place child leads
  obtain ⟨id, member, rfl⟩ := own.exists_of_mem_successors leads
  obtain ⟨node, found, _⟩ := own.found id member
  have plain := own.plain id member
  have moved := own.get?_gather (List.getElem?_idxOf member)
  rw [found] at moved
  rw [Graph.hasField, Graph.field?, Graph.entries?, Graph.node?, found] at plain
  rw [Graph.hasField, Graph.field?, Graph.entries?, Graph.node?, moved]
  cases node with
  | sequence items => rfl
  | mapping entries => exact (Entries.has_renumber _ entries Schema.refKey).trans plain

/-- A description in a graph of its own is that in any graph that has its containers. -/
theorem docs_gather (copies : g.Copies h ids r) {id : Nat} (member : id ∈ ids) :
    docs h (.node (r id)) .builtin = docs (g.gather ids) (.node (ids.idxOf id)) .builtin := by
  have same := docs_renumber (own.renumbers_gather copies) own.wellFormed_gather
    own.holdsNone_gather (.node (ids.idxOf id))
  have place : Graph.placed (ids.map r) h.size (ids.idxOf id) = r id := Graph.placed_of_getElem? (by
    rw [List.getElem?_map, List.getElem?_idxOf member, Option.map_some])
  rwa [Value.renumber_node, place] at same

/-- A description has the same models, endpoints and warnings in every graph that has its containers,
or is refused for the same reason. -/
theorem docs_of_copies (copies : g.Copies h ids r) {id : Nat} (member : id ∈ ids) :
    docs h (.node (r id)) .builtin = docs g (.node id) .builtin :=
  (own.docs_gather copies member).trans (own.docs_gather (.refl g ids) member).symm

end Described

/-! ## Sections -/

/-- The keys at the top of a description that are read. -/
def sectionKeys : List String := ["openapi", "components", "definitions", "paths"]

/-- Two mappings in one graph with the same sections have the same result. -/
theorem docs_congr {g : Graph} {document other : Value} (compiler : Compiler)
    (isMapping : g.isMapping document = true) (isOther : g.isMapping other = true)
    (sections : ∀ key ∈ sectionKeys, g.field? other key = g.field? document key) :
    docs g other compiler = docs g document compiler := by
  have checked : ∀ {v}, g.isMapping v = true → checkMapping g v = .ok () := by
    intro v isMapping
    obtain ⟨entries, read⟩ := Option.isSome_iff_exists.1 isMapping
    cases v with
    | scalar s => cases read
    | node id => simp only [checkMapping, Graph.node?, Graph.get?_of_entries? read]
  have version := sections "openapi" (by decide)
  have components := sections "components" (by decide)
  have definitions := sections "definitions" (by decide)
  have paths := sections "paths" (by decide)
  have same : normalise g other = normalise g document := by
    rw [normalise_eq, normalise_eq, checked isMapping, checked isOther]
    simp only [componentProposals, isVersion3, calls, version, components, definitions, paths]
    rfl
  rw [docs, docs, same]

end Api

end Typewright
