import Typewright.Compile.Whole
import Typewright.Proofs.Keyed
import Typewright.Proofs.Outcome
import Typewright.Proofs.Schema.Dependencies
import Typewright.Proofs.Schema.Registry

/-!
# What normalising gives

The names of a normalised description are those of defined schemas (`Api.defined_of_isNamed`), and
every schema that an endpoint mentions has a name (`Api.isNamed_of_endpoint`).
-/

namespace Typewright

open Schema

namespace Operation

variable {g : Graph}

theorem defined_of_heldSchema? {v : Value} {schema : Nat}
    (found : heldSchema? g v = some schema) : defined? g (.node schema) = some schema := by
  obtain ⟨held, _, defined⟩ := Option.bind_eq_some_iff.1 found
  rw [← (defined?_eq_some defined).1]
  exact defined

theorem defined_of_contentSchema? {v : Value} {schema : Nat}
    (found : contentSchema? g v = some schema) : defined? g (.node schema) = some schema := by
  rw [contentSchema?] at found
  obtain ⟨entry, _, held⟩ := List.exists_of_findSome?_eq_some found
  simp only at held
  split at held
  · exact defined_of_heldSchema? held
  · cases held

theorem defined_of_requestSchema? {operation : Entries} {schema : Nat}
    (found : requestSchema? g operation = .ok (some schema)) :
    defined? g (.node schema) = some schema := by
  rw [requestSchema?] at found
  split at found
  · next body _ =>
    split at found
    · injection found with content
      obtain ⟨_, _, held⟩ := Option.bind_eq_some_iff.1 content
      exact defined_of_contentSchema? held
    · cases found
  · obtain ⟨all, _, found⟩ := exists_of_bind_ok found
    injection found with first
    obtain ⟨parameter, _, held⟩ := List.exists_of_findSome?_eq_some first
    split at held
    · exact defined_of_heldSchema? held
    · cases held

theorem defined_of_responseSchema? {response : Value} {schema : Nat}
    (found : responseSchema? g response = some schema) :
    defined? g (.node schema) = some schema := by
  rw [responseSchema?] at found
  split at found
  · split at found
    · exact defined_of_contentSchema? found
    · exact defined_of_heldSchema? found
  · cases found

theorem putStatus_eq (all : List (String × Nat)) (status : String) (schema : Nat) :
    putStatus all status schema = Keyed.put Prod.fst all (status, schema) := by
  induction all with
  | nil => rfl
  | cons entry all ih => rw [putStatus, ih, Keyed.put]

/-- The schemas of responses are set one after the other under their statuses. -/
theorem responseSchemas_eq (operation : Entries) : responseSchemas g operation =
    Keyed.ofList Prod.fst ((((operation.get? "responses").bind g.entries?).getD []).filterMap
      fun (status, response) => (responseSchema? g response).map (Display.scalar status, ·)) := by
  rw [responseSchemas, Keyed.ofList, List.foldl_filterMap]
  congr 1
  funext found entry
  obtain ⟨status, response⟩ := entry
  dsimp only
  cases responseSchema? g response with
  | none => rfl
  | some schema => exact putStatus_eq found (Display.scalar status) schema

theorem defined_of_responseSchemas {operation : Entries} {entry : String × Nat}
    (member : entry ∈ responseSchemas g operation) :
    defined? g (.node entry.2) = some entry.2 := by
  rw [responseSchemas_eq] at member
  obtain ⟨⟨status, response⟩, _, found⟩ := List.mem_filterMap.1 (Keyed.mem_of_mem_ofList member)
  obtain ⟨schema, held, rfl⟩ := Option.map_eq_some_iff.1 found
  exact defined_of_responseSchema? held

end Operation

namespace Api

variable {g : Graph}

/-! ## Proposals -/

theorem defined_of_schemaProposals {part : Option Value} {proposal : Proposal}
    (member : proposal ∈ schemaProposals g part) :
    defined? g (.node proposal.schema) = some proposal.schema := by
  obtain ⟨entry, inSection, rfl⟩ := List.mem_map.1 member
  obtain ⟨_, _, found⟩ := List.mem_filterMap.1 inSection
  obtain ⟨schema, defined, rfl⟩ := Option.map_eq_some_iff.1 found
  rw [← (defined?_eq_some defined).1]
  exact defined

theorem defined_of_contentProposals {part : Option Value} {proposal : Proposal}
    (member : proposal ∈ contentProposals g part) :
    defined? g (.node proposal.schema) = some proposal.schema := by
  obtain ⟨entry, _, found⟩ := List.mem_filterMap.1 member
  obtain ⟨schema, held, rfl⟩ := Option.map_eq_some_iff.1 found
  obtain ⟨_, _, inContent⟩ := Option.bind_eq_some_iff.1 held
  exact Operation.defined_of_contentSchema? inContent

/-- What a description proposes itself: nothing without components, what these hold, or what an older
description has as definitions. -/
theorem cases_of_componentProposals {document : Value} {proposals : List Proposal}
    (given : componentProposals g document = .ok proposals) :
    (isVersion3 g document = true ∧ proposals = [] ∧
      ∀ components ∈ g.field? document "components", g.isMapping components = false) ∨
    (isVersion3 g document = true ∧ ∃ components,
      g.field? document "components" = some components ∧
      proposals = schemaProposals g (g.field? components "schemas") ++
        contentProposals g (g.field? components "responses") ++
        contentProposals g (g.field? components "requestBodies")) ∨
    (isVersion3 g document = false ∧
      proposals = schemaProposals g (g.field? document "definitions")) := by
  rw [componentProposals] at given
  split at given
  · next newer =>
    split at given
    · next missing =>
      cases given
      exact .inl ⟨newer, rfl, fun components held => by rw [missing] at held; cases held⟩
    · next components held =>
      split at given
      · obtain ⟨_, _, given⟩ := exists_of_bind_ok given
        cases given
        exact .inr (.inl ⟨newer, components, held, rfl⟩)
      · next noMapping =>
        split at given <;> cases given
        refine .inl ⟨newer, rfl, fun other same => ?_⟩
        cases held.symm.trans same
        exact Bool.eq_false_iff.2 noMapping
  · next older =>
    obtain ⟨_, _, given⟩ := exists_of_bind_ok given
    cases given
    exact .inr (.inr ⟨Bool.eq_false_iff.2 older, rfl⟩)

theorem defined_of_componentProposals {document : Value} {proposals : List Proposal}
    (given : componentProposals g document = .ok proposals) {proposal : Proposal}
    (member : proposal ∈ proposals) :
    defined? g (.node proposal.schema) = some proposal.schema := by
  obtain ⟨_, rfl, _⟩ | ⟨_, components, _, rfl⟩ | ⟨_, rfl⟩ := cases_of_componentProposals given
  · cases member
  · rcases List.mem_append.1 member with early | late
    · rcases List.mem_append.1 early with schema | response
      · exact defined_of_schemaProposals schema
      · exact defined_of_contentProposals response
    · exact defined_of_contentProposals late
  · exact defined_of_schemaProposals member

/-! ## Operations -/

/-- The schemas of an operation are defined. -/
def DefinedCall (g : Graph) (call : Call) : Prop :=
  (∀ schema ∈ call.request, defined? g (.node schema) = some schema) ∧
    ∀ entry ∈ call.responses, defined? g (.node entry.2) = some entry.2

theorem definedCall_of_callsUnder {path : String} {item : Nat} {found : List Call}
    (given : callsUnder g path item = .ok found) {call : Call} (member : call ∈ found) :
    DefinedCall g call := by
  rw [callsUnder] at given
  obtain ⟨all, listed, given⟩ := exists_of_bind_ok given
  cases given
  obtain ⟨calls, inAll, inCalls⟩ := List.mem_flatten.1 member
  obtain ⟨entry, _, made⟩ := exists_of_mem_mapM listed inAll
  simp only at made
  split at made
  · split at made
    · obtain ⟨request, asked, made⟩ := exists_of_bind_ok made
      obtain ⟨_, _, made⟩ := exists_of_bind_ok made
      cases made
      rw [List.mem_singleton.1 inCalls]
      refine ⟨fun schema isRequest => ?_, fun entry inResponses =>
        Operation.defined_of_responseSchemas inResponses⟩
      cases isRequest
      exact Operation.defined_of_requestSchema? asked
    · cases made
      cases inCalls
  · cases made
    cases inCalls

theorem definedCall_of_calls {document : Value} {found : List Call}
    (given : calls g document = .ok found) {call : Call} (member : call ∈ found) :
    DefinedCall g call := by
  rw [calls] at given
  obtain ⟨_, _, given⟩ := exists_of_bind_ok given
  obtain ⟨all, listed, given⟩ := exists_of_bind_ok given
  cases given
  obtain ⟨calls, inAll, inCalls⟩ := List.mem_flatten.1 member
  obtain ⟨entry, _, made⟩ := exists_of_mem_mapM listed inAll
  exact definedCall_of_callsUnder made inCalls

theorem mem_callProposals {call : Call} {proposal : Proposal}
    (member : proposal ∈ callProposals call) :
    some proposal.schema = call.request ∨ ∃ entry ∈ call.responses, entry.2 = proposal.schema := by
  rw [callProposals] at member
  rcases List.mem_append.1 member with request | response
  · obtain ⟨schema, isRequest, rfl⟩ := List.mem_map.1 request
    exact Or.inl (Option.mem_toList.1 isRequest).symm
  · obtain ⟨entry, inResponses, rfl⟩ := List.mem_map.1 response
    exact Or.inr ⟨entry, inResponses, rfl⟩

theorem exists_callProposal {call : Call} {schema : Nat}
    (mentioned : call.request = some schema ∨ ∃ entry ∈ call.responses, entry.2 = schema) :
    ∃ proposal ∈ callProposals call, proposal.schema = schema := by
  rw [callProposals]
  rcases mentioned with request | ⟨entry, member, rfl⟩
  · exact ⟨_, List.mem_append_left _ (List.mem_map.2 ⟨schema, by simp [request], rfl⟩), rfl⟩
  · exact ⟨_, List.mem_append_right _ (List.mem_map_of_mem member), rfl⟩

theorem putEndpoint_eq : putEndpoint = Keyed.put Endpoint.id := by
  funext all new
  induction all with
  | nil => rfl
  | cons old rest ih => rw [putEndpoint, ih, Keyed.put]

/-! ## Normalised descriptions -/

/-- The parts of a normalised description. -/
theorem exists_proposals {document : Value} {normal : Normal}
    (given : normalise g document = .ok normal) :
    ∃ components found, componentProposals g document = .ok components ∧
      calls g document = .ok found ∧
      normal.naming = nameAll (components ++ found.flatMap callProposals) ∧
      (normal.graph, normal.definitions) = Standalone.definitions g normal.naming ∧
      normal.schemas = normal.naming.namedSchemas.map
        (fun schema => (idOf normal.naming schema, schema)) ∧
      normal.endpoints = Keyed.ofList Endpoint.id (found.map (endpoint normal.naming)) := by
  rw [normalise] at given
  obtain ⟨_, _, given⟩ := exists_of_bind_ok given
  obtain ⟨components, proposed, given⟩ := exists_of_bind_ok given
  obtain ⟨found, listed, given⟩ := exists_of_bind_ok given
  cases given
  refine ⟨components, found, proposed, listed, rfl, rfl, rfl, ?_⟩
  rw [putEndpoint_eq, Keyed.ofList]

section

variable {document : Value} {normal : Normal} (given : normalise g document = .ok normal)
include given

theorem consistent_naming : Naming.Consistent [Text.lower topLevelTitle] normal.naming := by
  obtain ⟨_, _, _, _, naming, _⟩ := exists_proposals given
  rw [naming]
  exact consistent_nameAll _

/-- Only mappings that are no references have names. -/
theorem defined_of_isNamed {schema : Nat} (named : normal.naming.isNamed schema = true) :
    defined? g (.node schema) = some schema := by
  obtain ⟨components, found, proposed, listed, naming, _⟩ := exists_proposals given
  rw [naming] at named
  obtain ⟨proposal, member, rfl⟩ := exists_proposal_of_isNamed named
  rcases List.mem_append.1 member with component | operation
  · exact defined_of_componentProposals proposed component
  · obtain ⟨call, inCalls, inProposals⟩ := List.mem_flatMap.1 operation
    have defined := definedCall_of_calls listed inCalls
    rcases mem_callProposals inProposals with request | ⟨entry, inResponses, same⟩
    · exact defined.1 _ request.symm
    · rw [← same]
      exact defined.2 entry inResponses

end

section

variable {document : Value} {normal : Normal} (given : normalise g document = .ok normal)
include given

/-- The schemas of an endpoint have names. -/
theorem isNamed_of_endpoint {e : Endpoint} (member : e ∈ normal.endpoints) :
    ∃ call, e = endpoint normal.naming call ∧
      (∀ schema ∈ call.request, normal.naming.isNamed schema = true) ∧
      ∀ entry ∈ call.responses, normal.naming.isNamed entry.2 = true := by
  obtain ⟨components, found, _, _, naming, _, _, endpoints⟩ := exists_proposals given
  rw [endpoints] at member
  obtain ⟨call, inCalls, rfl⟩ := List.mem_map.1 (Keyed.mem_of_mem_ofList member)
  have named : ∀ schema, (call.request = some schema ∨ ∃ entry ∈ call.responses, entry.2 = schema) →
      normal.naming.isNamed schema = true := by
    intro schema mentioned
    obtain ⟨proposal, proposed, rfl⟩ := exists_callProposal mentioned
    rw [naming]
    exact isNamed_nameAll (List.mem_append_right _ (List.mem_flatMap.2 ⟨call, inCalls, proposed⟩))
  exact ⟨call, rfl, fun schema request => named schema (Or.inl request),
    fun entry response => named entry.2 (Or.inr ⟨entry, response, rfl⟩)⟩

end

/-! ## Inspecting a description -/

/-- What a check says about a description, if it is normalised and compiled. -/
def inspect? (g : Graph) (document : Value) (check : Normal → Compile.Source → Bool) :
    Option Bool :=
  match normalise g document with
  | .error _ => none
  | .ok normal =>
    match Compile.wholeSource normal.graph normal.definitions with
    | .error _ => none
    | .ok source => some (check normal source)

theorem exists_of_inspect? {g : Graph} {document : Value}
    {check : Normal → Compile.Source → Bool} {result : Bool}
    (computed : inspect? g document check = some result) :
    ∃ normal source, normalise g document = .ok normal ∧
      Compile.wholeSource normal.graph normal.definitions = .ok source ∧
      check normal source = result := by
  rw [inspect?] at computed
  split at computed
  · cases computed
  · next normal given =>
    split at computed
    · cases computed
    · next source made =>
      injection computed with same
      exact ⟨normal, source, given, made, same⟩

end Api

end Typewright
