import Typewright.Proofs.Api.Operations
import Typewright.Proofs.Schema.Definitions

/-!
# The schemas of a normalised description

Normalising names the schemas that it meets: those that the description names itself, as components
or definitions (`Api.NamedByEntry`), and those of the operations (`Api.HeldByOperation`). What counts
for a schema is its first proposal, so its name was made up exactly if no component or definition
proposed one.

Main statement: the result names these schemas and no others, each under one id of its own, and an
endpoint mentions the schemas of its operation by their ids (`Api.closed_of_normalise`).
-/

namespace Typewright.Api

open Schema

/-- A schema that a component or a definition of a description names: one that stands in a section,
or the content of a response or request body that does. -/
inductive NamedByEntry (g : Graph) (document : Value) : Nat → Prop
  | definition {key : Scalar} {schema : Nat} (older : isVersion3 g document = false)
      (entry : Entry g (g.field? document "definitions") key schema) :
      NamedByEntry g document schema
  | component {components : Value} {key : Scalar} {schema : Nat}
      (newer : isVersion3 g document = true)
      (held : g.field? document "components" = some components)
      (entry : Entry g (g.field? components "schemas") key schema) :
      NamedByEntry g document schema
  | content {components : Value} {part : String} {key : Scalar} {id schema : Nat}
      (newer : isVersion3 g document = true)
      (held : g.field? document "components" = some components)
      (isPart : part ∈ ["responses", "requestBodies"])
      (entry : Entry g (g.field? components part) key id)
      (content : (g.field? (.node id) "content").bind (Operation.contentSchema? g) = some schema) :
      NamedByEntry g document schema

/-- A schema of an operation, for its request body or for a status. A response hides an earlier one
whose status has the same text. -/
inductive HeldByOperation (g : Graph) (document : Value) : Nat → Prop
  | request {path : Scalar} {method : String} {item id : Nat} {operation : Entries} {schema : Nat}
      (operates : Operates g document path method item id operation)
      (held : Operation.requestSchema? g operation = .ok (some schema)) :
      HeldByOperation g document schema
  | response {path : Scalar} {method status : String} {item id : Nat} {operation : Entries}
      {schema : Nat} (operates : Operates g document path method item id operation)
      (held : (status, schema) ∈ Operation.responseSchemas g operation) :
      HeldByOperation g document schema

section

variable {g : Graph} {document : Value}

/-! ## Proposals -/

theorem exists_schemaProposal_iff {part : Option Value} {schema : Nat} :
    (∃ proposal ∈ schemaProposals g part, proposal.schema = schema) ↔
      ∃ key, Entry g part key schema := by
  constructor
  · rintro ⟨proposal, member, rfl⟩
    obtain ⟨⟨title, id⟩, inSection, rfl⟩ := List.mem_map.1 member
    obtain ⟨key, entry, _⟩ := mem_definedEntries_iff.1 inSection
    exact ⟨key, entry⟩
  · rintro ⟨key, entry⟩
    exact ⟨_, List.mem_map_of_mem (mem_definedEntries_iff.2 ⟨key, entry, rfl⟩), rfl⟩

theorem exists_contentProposal_iff {part : Option Value} {schema : Nat} :
    (∃ proposal ∈ contentProposals g part, proposal.schema = schema) ↔
      ∃ key id, Entry g part key id ∧
        (g.field? (.node id) "content").bind (Operation.contentSchema? g) = some schema := by
  constructor
  · rintro ⟨proposal, member, rfl⟩
    obtain ⟨⟨title, id⟩, inSection, made⟩ := List.mem_filterMap.1 member
    obtain ⟨schema, held, rfl⟩ := Option.map_eq_some_iff.1 made
    obtain ⟨key, entry, _⟩ := mem_definedEntries_iff.1 inSection
    exact ⟨key, id, entry, held⟩
  · rintro ⟨key, id, entry, held⟩
    refine ⟨{ schema, title := Display.scalar key }, List.mem_filterMap.2
      ⟨_, mem_definedEntries_iff.2 ⟨key, entry, rfl⟩, ?_⟩, rfl⟩
    simp [held]

theorem namedByEntry_iff_of_newer (newer : isVersion3 g document = true) {schema : Nat} :
    NamedByEntry g document schema ↔ ∃ components, g.field? document "components" = some components ∧
      ((∃ key, Entry g (g.field? components "schemas") key schema) ∨
        ∃ part ∈ ["responses", "requestBodies"], ∃ key id,
          Entry g (g.field? components part) key id ∧
            (g.field? (.node id) "content").bind (Operation.contentSchema? g) = some schema) := by
  constructor
  · rintro (⟨older, _⟩ | ⟨_, held, entry⟩ | ⟨_, held, isPart, entry, content⟩)
    · rw [newer] at older
      cases older
    · exact ⟨_, held, Or.inl ⟨_, entry⟩⟩
    · exact ⟨_, held, Or.inr ⟨_, isPart, _, _, entry, content⟩⟩
  · rintro ⟨components, held, ⟨key, entry⟩ | ⟨part, isPart, key, id, entry, content⟩⟩
    · exact .component newer held entry
    · exact .content newer held isPart entry content

theorem namedByEntry_iff_of_older (older : isVersion3 g document = false) {schema : Nat} :
    NamedByEntry g document schema ↔
      ∃ key, Entry g (g.field? document "definitions") key schema := by
  constructor
  · rintro (⟨_, entry⟩ | ⟨newer, _⟩ | ⟨newer, _⟩)
    · exact ⟨_, entry⟩
    · rw [older] at newer
      cases newer
    · rw [older] at newer
      cases newer
  · rintro ⟨key, entry⟩
    exact .definition older entry

/-- What is no mapping has no sections. -/
theorem not_entry_of_not_mapping {v : Value} {part : String} {key : Scalar} {id : Nat}
    (noMapping : g.isMapping v = false) : ¬ Entry g (g.field? v part) key id := by
  rintro ⟨entries, read, _⟩
  rw [Graph.isMapping, Option.isSome_eq_false_iff, Option.isNone_iff_eq_none] at noMapping
  rw [Graph.field?, noMapping] at read
  cases read

/-- What a description proposes itself, it does for the schemas that it names. -/
theorem exists_componentProposal_iff {proposals : List Proposal}
    (given : componentProposals g document = .ok proposals) {schema : Nat} :
    (∃ proposal ∈ proposals, proposal.schema = schema) ↔ NamedByEntry g document schema := by
  obtain ⟨newer, rfl, noMapping⟩ | ⟨newer, components, held, rfl⟩ | ⟨older, rfl⟩ :=
    cases_of_componentProposals given
  · rw [namedByEntry_iff_of_newer newer]
    cases held : g.field? document "components" with
    | none => simp
    | some components => simp [not_entry_of_not_mapping (noMapping components held)]
  · rw [namedByEntry_iff_of_newer newer]
    simp only [List.mem_append, or_and_right, exists_or, exists_schemaProposal_iff,
      exists_contentProposal_iff, held, Option.some.injEq, List.mem_cons, List.not_mem_nil,
      or_false, exists_eq_left, exists_eq_left', or_assoc]
  · rw [exists_schemaProposal_iff, namedByEntry_iff_of_older older]

theorem exists_callProposals_iff {found : List Call} (given : calls g document = .ok found)
    {schema : Nat} :
    (∃ proposal ∈ found.flatMap callProposals, proposal.schema = schema) ↔
      HeldByOperation g document schema := by
  constructor
  · rintro ⟨proposal, member, rfl⟩
    obtain ⟨call, inCalls, proposed⟩ := List.mem_flatMap.1 member
    obtain ⟨path, item, id, operation, describes⟩ := exists_of_mem_calls given inCalls
    rcases mem_callProposals proposed with request | ⟨⟨status, other⟩, inResponses, rfl⟩
    · exact .request describes.operates (describes.request.trans (congrArg _ request.symm))
    · exact .response describes.operates (describes.responses ▸ inResponses)
  · intro held
    have listed : ∃ call ∈ found, call.request = some schema ∨
        ∃ entry ∈ call.responses, entry.2 = schema := by
      cases held with
      | request operates held =>
        obtain ⟨call, member, _, describes⟩ := exists_call_of_operates given operates
        have same := describes.request.symm.trans held
        exact ⟨call, member, Or.inl (by injection same)⟩
      | response operates held =>
        obtain ⟨call, member, _, describes⟩ := exists_call_of_operates given operates
        exact ⟨call, member, Or.inr ⟨_, describes.responses ▸ held, rfl⟩⟩
    obtain ⟨call, member, mentioned⟩ := listed
    obtain ⟨proposal, proposed, same⟩ := exists_callProposal mentioned
    exact ⟨proposal, List.mem_flatMap.2 ⟨call, member, proposed⟩, same⟩

/-! ## Made up names -/

/-- A component or a definition proposes a name that is not made up, and no description. -/
theorem plain_componentProposals {proposals : List Proposal}
    (given : componentProposals g document = .ok proposals) {proposal : Proposal}
    (member : proposal ∈ proposals) :
    proposal.generated = false ∧ proposal.description = none := by
  have schemas : ∀ part, proposal ∈ schemaProposals g part →
      proposal.generated = false ∧ proposal.description = none := by
    intro part inSection
    obtain ⟨entry, _, rfl⟩ := List.mem_map.1 inSection
    exact ⟨rfl, rfl⟩
  have contents : ∀ part, proposal ∈ contentProposals g part →
      proposal.generated = false ∧ proposal.description = none := by
    intro part inSection
    obtain ⟨entry, _, made⟩ := List.mem_filterMap.1 inSection
    obtain ⟨schema, _, rfl⟩ := Option.map_eq_some_iff.1 made
    exact ⟨rfl, rfl⟩
  obtain ⟨_, rfl, _⟩ | ⟨_, components, _, rfl⟩ | ⟨_, rfl⟩ := cases_of_componentProposals given
  · cases member
  · rcases List.mem_append.1 member with early | requestBody
    · rcases List.mem_append.1 early with schema | response
      · exact schemas _ schema
      · exact contents _ response
    · exact contents _ requestBody
  · exact schemas _ member

theorem generated_callProposals {call : Call} {proposal : Proposal}
    (member : proposal ∈ callProposals call) : proposal.generated = true := by
  rw [callProposals] at member
  rcases List.mem_append.1 member with request | response
  · obtain ⟨_, _, rfl⟩ := List.mem_map.1 request
    rfl
  · obtain ⟨_, _, rfl⟩ := List.mem_map.1 response
    rfl

section

variable {normal : Normal} (given : normalise g document = .ok normal)
include given

/-- The schemas that have names. -/
theorem isNamed_iff_met {schema : Nat} : normal.naming.isNamed schema = true ↔
    NamedByEntry g document schema ∨ HeldByOperation g document schema := by
  obtain ⟨components, found, proposed, listed, naming, _⟩ := exists_proposals given
  rw [← exists_componentProposal_iff proposed, ← exists_callProposals_iff listed, naming]
  constructor
  · intro named
    obtain ⟨proposal, member, same⟩ := exists_proposal_of_isNamed named
    rcases List.mem_append.1 member with component | operation
    · exact Or.inl ⟨proposal, component, same⟩
    · exact Or.inr ⟨proposal, operation, same⟩
  · rintro (⟨proposal, member, rfl⟩ | ⟨proposal, member, rfl⟩)
    · exact isNamed_nameAll (List.mem_append_left _ member)
    · exact isNamed_nameAll (List.mem_append_right _ member)

/-- A name was made up if no component or definition proposed one. -/
theorem isGenerated_iff {schema : Nat} (named : normal.naming.isNamed schema = true) :
    normal.naming.isGenerated schema = true ↔ ¬ NamedByEntry g document schema := by
  obtain ⟨components, found, proposed, listed, naming, _⟩ := exists_proposals given
  rw [← exists_componentProposal_iff proposed]
  rw [naming] at named ⊢
  rw [Naming.isGenerated, proposal?_nameAll, List.find?_append]
  cases first : components.find? (·.schema == schema) with
  | some proposal =>
    have member := List.mem_of_find?_eq_some first
    have same : proposal.schema = schema := by simpa using List.find?_some first
    have own := (plain_componentProposals proposed member).1
    simp only [Option.some_or, Option.map_some, Option.getD_some, own, Bool.false_eq_true,
      false_iff, not_not]
    exact ⟨proposal, member, same⟩
  | none =>
    have missing : ¬ ∃ proposal ∈ components, proposal.schema = schema := by
      rintro ⟨proposal, member, rfl⟩
      have other := List.find?_eq_none.1 first proposal member
      simp at other
    obtain ⟨proposal, member, same⟩ := exists_proposal_of_isNamed named
    have fromCall : proposal ∈ found.flatMap callProposals :=
      (List.mem_append.1 member).resolve_left fun component => missing ⟨proposal, component, same⟩
    cases second : (found.flatMap callProposals).find? (·.schema == schema) with
    | none =>
      have other := List.find?_eq_none.1 second proposal fromCall
      simp [same] at other
    | some winner =>
      obtain ⟨call, _, inProposals⟩ := List.mem_flatMap.1 (List.mem_of_find?_eq_some second)
      simp [generated_callProposals inProposals, missing]

end

end

/-! ## Closure -/

/-- What the result of normalising a description says of its schemas. -/
structure Closed (g : Graph) (document : Value) (normal : Normal) : Prop where
  /-- The containers of the description keep their numbers. -/
  keeps : g.Extends normal.graph
  /-- Every named schema has an entry under its name in lower case. -/
  schemas : normal.schemas = normal.naming.names.map fun entry => (Text.lower entry.2, entry.1)
  nodesOnce : (normal.schemas.map (·.2)).Nodup
  idsOnce : (normal.schemas.map (·.1)).Nodup
  definitions : normal.definitions.map (·.1) = normal.schemas.map (·.1)
  /-- The schemas that are named are those that are met. -/
  named : ∀ schema, schema ∈ normal.schemas.map (·.2) ↔
    NamedByEntry g document schema ∨ HeldByOperation g document schema
  /-- An endpoint mentions the schemas of an operation by their ids. -/
  endpoints : ∀ e ∈ normal.endpoints, ∃ call path item id operation,
    Describes g document call path item id operation ∧ e.path = call.path ∧
      e.method = call.method ∧
      Option.Rel (fun model schema => (model, schema) ∈ normal.schemas) e.requestModel
        call.request ∧
      List.Forall₂ (fun model response =>
        model.1 = response.1 ∧ (model.2, response.2) ∈ normal.schemas) e.responseModels
        call.responses
  generated : ∀ id, id ∈ normal.generatedIds ↔
    ∃ schema, (id, schema) ∈ normal.schemas ∧ ¬ NamedByEntry g document schema

section

variable {g : Graph} {document : Value} {normal : Normal}
variable (given : normalise g document = .ok normal)
include given

/-- The schemas of a result, by name. -/
theorem schemas_eq_names :
    normal.schemas = normal.naming.names.map fun entry => (Text.lower entry.2, entry.1) := by
  obtain ⟨_, _, _, _, _, _, schemas, _⟩ := exists_proposals given
  rw [schemas, Naming.namedSchemas, List.map_map]
  refine List.map_congr_left fun entry member => ?_
  have found := (consistent_naming given).nameOf?_eq_some_iff.2
    (show (entry.1, entry.2) ∈ _ from member)
  simp [idOf, Naming.idOf?, found]

theorem mem_schemas_of_isNamed {schema : Nat} (named : normal.naming.isNamed schema = true) :
    (idOf normal.naming schema, schema) ∈ normal.schemas := by
  obtain ⟨_, _, _, _, _, _, schemas, _⟩ := exists_proposals given
  rw [schemas]
  exact List.mem_map_of_mem (Naming.isNamed_iff.1 named)

theorem mem_nodes_iff {schema : Nat} :
    schema ∈ normal.schemas.map (·.2) ↔ normal.naming.isNamed schema = true := by
  obtain ⟨_, _, _, _, _, _, schemas, _⟩ := exists_proposals given
  rw [schemas, List.map_map, Naming.isNamed_iff]
  simp

theorem mem_generatedIds_iff {id : String} : id ∈ normal.generatedIds ↔
    ∃ schema, (id, schema) ∈ normal.schemas ∧ ¬ NamedByEntry g document schema := by
  have generated : normal.generatedIds =
      (normal.naming.namedSchemas.filter normal.naming.isGenerated).map (idOf normal.naming) := by
    rw [normalise] at given
    obtain ⟨_, _, given⟩ := exists_of_bind_ok given
    obtain ⟨_, _, given⟩ := exists_of_bind_ok given
    obtain ⟨_, _, given⟩ := exists_of_bind_ok given
    cases given
    rfl
  obtain ⟨_, _, _, _, _, _, schemas, _⟩ := exists_proposals given
  rw [generated, schemas, List.mem_map]
  simp only [List.mem_filter, List.mem_map, Prod.mk.injEq]
  constructor
  · rintro ⟨schema, ⟨member, isGenerated⟩, rfl⟩
    have named := Naming.isNamed_iff.2 member
    exact ⟨schema, ⟨schema, member, rfl, rfl⟩, (isGenerated_iff given named).1 isGenerated⟩
  · rintro ⟨_, ⟨schema, member, rfl, rfl⟩, unnamed⟩
    have named := Naming.isNamed_iff.2 member
    exact ⟨schema, ⟨member, (isGenerated_iff given named).2 unnamed⟩, rfl⟩

theorem exists_call_of_endpoint {e : Endpoint} (member : e ∈ normal.endpoints) :
    ∃ call path item id operation, Describes g document call path item id operation ∧
      e.path = call.path ∧ e.method = call.method ∧
      Option.Rel (fun model schema => (model, schema) ∈ normal.schemas) e.requestModel
        call.request ∧
      List.Forall₂ (fun model response =>
        model.1 = response.1 ∧ (model.2, response.2) ∈ normal.schemas) e.responseModels
        call.responses := by
  obtain ⟨_, found, _, listed, _, _, _, endpoints⟩ := exists_proposals given
  rw [endpoints] at member
  obtain ⟨call, inCalls, rfl⟩ := List.mem_map.1 (Keyed.mem_of_mem_ofList member)
  obtain ⟨path, item, id, operation, describes⟩ := exists_of_mem_calls listed inCalls
  have entry : ∀ schema, HeldByOperation g document schema →
      (idOf normal.naming schema, schema) ∈ normal.schemas := fun schema held =>
    mem_schemas_of_isNamed given ((isNamed_iff_met given).2 (Or.inr held))
  refine ⟨call, path, item, id, operation, describes, rfl, rfl, ?_, ?_⟩
  · have asked := describes.request
    rw [endpoint]
    cases request : call.request with
    | none => exact .none
    | some schema =>
      rw [request] at asked
      exact .some (entry schema (.request describes.operates asked))
  · rw [endpoint, List.forall₂_map_left_iff, List.forall₂_same]
    intro response inResponses
    exact ⟨rfl, entry response.2
      (.response describes.operates (describes.responses ▸ inResponses))⟩

end

/-- Normalising a description names the schemas that it meets and gives them to its endpoints. -/
theorem closed_of_normalise {g : Graph} {document : Value} {normal : Normal}
    (given : normalise g document = .ok normal) : Closed g document normal := by
  have consistent := consistent_naming given
  have schemas := schemas_eq_names given
  obtain ⟨_, _, _, _, _, definitions, _⟩ := exists_proposals given
  have ids := Standalone.ids_definitions consistent g
  rw [← definitions] at ids
  refine ⟨?_, schemas, ?_, ?_, ?_, fun schema => (mem_nodes_iff given).trans (isNamed_iff_met given),
    fun e => exists_call_of_endpoint given, fun id => mem_generatedIds_iff given⟩
  · have kept := (Standalone.copyAll_spec normal.naming normal.naming.namedSchemas g).1
    rwa [← Standalone.definitions, ← definitions] at kept
  · rw [schemas, List.map_map]
    exact consistent.once
  · rw [schemas, List.map_map]
    exact consistent.apart
  · rw [ids, schemas, List.map_map]
    rfl

/-- A component under two names, and operations that share schemas with it and with a response. -/
def sharing : Graph := ⟨#[
  .mapping [(.str "openapi", .str "3.0.0"), (.str "components", .node 1), (.str "paths", .node 2)],
  .mapping [(.str "schemas", .node 3), (.str "responses", .node 4)],
  .mapping [(.str "/pets", .node 5)],
  .mapping [(.str "Pet", .node 6), (.str "Animal", .node 6)],
  .mapping [(.str "Pets", .node 7)],
  .mapping [(.str "get", .node 11), (.str "post", .node 12)],
  .mapping [(.str "type", .str "string")],
  .mapping [(.str "content", .node 8)],
  .mapping [(.str "application/json", .node 9)],
  .mapping [(.str "schema", .node 10)],
  .mapping [(.str "type", .str "array")],
  .mapping [(.str "responses", .node 13)],
  .mapping [(.str "requestBody", .node 14)],
  .mapping [(.int 200, .node 7), (.str "default", .node 17)],
  .mapping [(.str "content", .node 15)],
  .mapping [(.str "application/json", .node 16)],
  .mapping [(.str "schema", .node 6)],
  .mapping [(.str "content", .node 18)],
  .mapping [(.str "text/plain", .node 19)],
  .mapping [(.str "schema", .node 20)],
  .mapping [(.str "type", .str "boolean")]]⟩

theorem closed_of_normalise_sharing : ∃ normal, normalise sharing (.node 0) = .ok normal ∧
    normal.schemas = [("pet", 6), ("pets", 10), ("petsdefault_responsebody", 20)] ∧
    normal.generatedIds = ["petsdefault_responsebody"] ∧ Closed sharing (.node 0) normal := by
  obtain ⟨normal, given, same⟩ : ∃ normal, normalise sharing (.node 0) = .ok normal ∧
      (normal.schemas, normal.generatedIds) =
        ([("pet", 6), ("pets", 10), ("petsdefault_responsebody", 20)],
          ["petsdefault_responsebody"]) := exists_of_toOption_map (by decide +kernel)
  injection same with schemas generated
  exact ⟨normal, given, schemas, generated, closed_of_normalise given⟩

end Typewright.Api
