import Typewright.Proofs.Api.Registered
import Typewright.Proofs.Compile.Names
import Typewright.Proofs.Schema.Descriptions

/-!
# Made up descriptions

A schema that only operations hold gets a description with its name, made of the first operation
that holds it (`Api.Call.bodyText?`). A schema that a component or a definition names gets none.
`Api.described_iff` says what the definition of a schema shows: its own description if it has one,
whatever it is, and the made up one otherwise. So a generated schema is described as it should be
unless its own description counts as false.
-/

namespace Typewright.Api

open Schema

/-! ## Proposed descriptions -/

/-- The description that an operation makes up for a schema: for its request body, or else for the
first of its responses with the schema. -/
def Call.bodyText? (call : Call) (schema : Nat) : Option String :=
  let place := methodWord call.method ++ " " ++ call.path
  if call.request = some schema then some ("Request body for " ++ place)
  else (call.responses.find? (·.2 == schema)).map fun response =>
    response.1 ++ " response body for " ++ place

theorem description_of_callProposals (call : Call) (schema : Nat) :
    ((callProposals call).find? (·.schema == schema)).bind (·.description) =
      call.bodyText? schema := by
  have responses : ∀ place : String, ((call.responses.map fun response =>
        ({ schema := response.2, title := titleBase call.path ++ "_" ++ response.1 ++
            "_ResponseBody", generated := true
           description := some (response.1 ++ " response body for " ++ place) } : Proposal)).find?
          (·.schema == schema)).bind (·.description) =
      (call.responses.find? (·.2 == schema)).map fun response =>
        response.1 ++ " response body for " ++ place := by
    intro place
    rw [List.find?_map]
    change Option.bind (Option.map _ (call.responses.find? (·.2 == schema))) _ = _
    cases call.responses.find? (·.2 == schema) <;> rfl
  rw [callProposals, Call.bodyText?]
  cases call.request with
  | none =>
    rw [if_neg (by simp)]
    exact responses _
  | some request =>
    by_cases same : request = schema
    · rw [same, if_pos rfl]
      simp
    · have other : (request == schema) = false := beq_eq_false_iff_ne.2 same
      rw [if_neg (by simpa using same)]
      simp only [Option.toList_some, List.map_singleton, List.singleton_append, List.find?_cons,
        other]
      exact responses _

theorem exists_description_of_callProposals {call : Call} {proposal : Proposal}
    (member : proposal ∈ callProposals call) : ∃ text, proposal.description = some text := by
  rw [callProposals] at member
  rcases List.mem_append.1 member with request | response
  · obtain ⟨_, _, rfl⟩ := List.mem_map.1 request
    exact ⟨_, rfl⟩
  · obtain ⟨_, _, rfl⟩ := List.mem_map.1 response
    exact ⟨_, rfl⟩

/-- The first proposal of some operations comes from the first of them that holds the schema. -/
theorem description_of_flatMap_callProposals (found : List Call) (schema : Nat) :
    ((found.flatMap callProposals).find? (·.schema == schema)).bind (·.description) =
      found.findSome? (·.bodyText? schema) := by
  rw [List.find?_flatMap]
  induction found with
  | nil => rfl
  | cons call found ih =>
    have here := description_of_callProposals call schema
    rw [List.findSome?_cons, List.findSome?_cons, ← here]
    cases first : (callProposals call).find? (·.schema == schema) with
    | none => exact ih
    | some proposal =>
      obtain ⟨text, described⟩ :=
        exists_description_of_callProposals (List.mem_of_find?_eq_some first)
      simp only [Option.bind_some, described]

theorem ne_empty_of_bodyText? {call : Call} {schema : Nat} {text : String}
    (given : call.bodyText? schema = some text) : text ≠ "" := by
  rw [Call.bodyText?] at given
  split at given
  · cases given
    simp
  · obtain ⟨response, _, rfl⟩ := Option.map_eq_some_iff.1 given
    simp

section

variable {g : Graph} {document : Value}

variable {normal : Normal} (given : normalise g document = .ok normal)
include given

/-- No description is proposed for a schema that a component or a definition names. -/
theorem descriptionOf?_of_namedByEntry {schema : Nat} (byEntry : NamedByEntry g document schema) :
    normal.naming.descriptionOf? schema = none := by
  obtain ⟨components, found, proposed, listed, naming, _⟩ := exists_proposals given
  obtain ⟨proposal, member, same⟩ := (exists_componentProposal_iff proposed).2 byEntry
  rw [naming, Naming.descriptionOf?, proposal?_nameAll, List.find?_append]
  cases first : components.find? (·.schema == schema) with
  | none =>
    have other := List.find?_eq_none.1 first proposal member
    simp [same] at other
  | some winner =>
    exact (plain_componentProposals proposed (List.mem_of_find?_eq_some first)).2

/-- For any other schema the first operation that holds it makes one up. -/
theorem descriptionOf?_of_generated {schema : Nat} (named : normal.naming.isNamed schema = true)
    (generated : ¬ NamedByEntry g document schema) : ∃ found text,
      calls g document = .ok found ∧ found.findSome? (·.bodyText? schema) = some text ∧
      normal.naming.descriptionOf? schema = some text := by
  obtain ⟨components, found, proposed, listed, naming, _⟩ := exists_proposals given
  rw [← exists_componentProposal_iff proposed] at generated
  have none : components.find? (·.schema == schema) = none := by
    rw [List.find?_eq_none]
    intro proposal member same
    exact generated ⟨proposal, member, beq_iff_eq.1 same⟩
  rw [naming] at named ⊢
  obtain ⟨proposal, member, same⟩ := exists_proposal_of_isNamed named
  have fromCall := (List.mem_append.1 member).resolve_left fun component =>
    generated ⟨proposal, component, same⟩
  rw [Naming.descriptionOf?, proposal?_nameAll, List.find?_append, none, Option.none_or]
  cases first : (found.flatMap callProposals).find? (·.schema == schema) with
  | none =>
    have other := List.find?_eq_none.1 first proposal fromCall
    simp [same] at other
  | some winner =>
    obtain ⟨call, _, inProposals⟩ := List.mem_flatMap.1 (List.mem_of_find?_eq_some first)
    obtain ⟨text, described⟩ := exists_description_of_callProposals inProposals
    refine ⟨found, text, listed, ?_, described⟩
    rw [← description_of_flatMap_callProposals, first]
    exact described

end

/-! ## Descriptions of definitions -/

/-- How a generated schema should be described: by its own description if that counts as true, and
otherwise by the text that was made up for it. -/
def IsDescribed (g : Graph) (stands : Value → Value → Prop) (text : String)
    (own shown : Option Value) : Prop :=
  (own.any g.isTruthy = true → Option.Rel stands own shown) ∧
    (own.any g.isTruthy = false → shown = some (.str text))

/-- A made up text stands for no description that counts as false. -/
theorem isDescribed_iff {g copied : Graph} {naming : Naming} {own : Nat → Prop}
    {image : Nat → Nat} {text : String} {given shown : Option Value} (proper : text ≠ "")
    (absent : given = none → shown = some (.str text))
    (present : given.isSome = true →
      Option.Rel (Standalone.StandsFor copied naming own image) given shown) :
    IsDescribed g (Standalone.StandsFor copied naming own image) text given shown ↔
      given.all g.isTruthy = true := by
  cases given with
  | none =>
    rw [absent rfl]
    simp [IsDescribed]
  | some v =>
    have copies := present rfl
    rw [IsDescribed, Option.any_some, Option.all_some]
    constructor
    · intro ⟨_, madeUp⟩
      by_contra idle
      rw [madeUp (Bool.eq_false_iff.2 idle)] at copies
      cases copies with
      | some stands =>
        cases stands with
        | scalar s =>
          refine idle ?_
          simpa [Graph.isTruthy, Scalar.isTruthy] using proper
    · intro truthy
      refine ⟨fun _ => copies, fun idle => ?_⟩
      rw [truthy] at idle
      cases idle

/-- The definition of a named schema shows its own description if it has one. A schema that a
component or a definition names shows no other. A generated schema without one shows the text of the
first operation that holds it; it is described as it should be exactly if its own description is
missing or counts as true. -/
theorem described_iff {g : Graph} {document : Value} {normal : Normal} (wellFormed : g.WellFormed)
    (given : normalise g document = .ok normal) {id : String} {schema : Nat}
    (member : (id, schema) ∈ normal.schemas) : ∃ image entries copies,
      Compile.IsImage g normal schema image ∧ (id, .node (image schema)) ∈ normal.definitions ∧
      g.get? schema = some (.mapping entries) ∧
      normal.graph.get? (image schema) = some (.mapping copies) ∧
      ((entries.get? "description").isSome = true ∨ NamedByEntry g document schema →
        Option.Rel (Standalone.StandsFor normal.graph normal.naming
          (Standalone.KeptOwn g normal.naming schema) image)
          (entries.get? "description") (copies.get? "description")) ∧
      (¬ NamedByEntry g document schema → ∃ found text, calls g document = .ok found ∧
        found.findSome? (·.bodyText? schema) = some text ∧
        (IsDescribed g (Standalone.StandsFor normal.graph normal.naming
            (Standalone.KeptOwn g normal.naming schema) image) text
            (entries.get? "description") (copies.get? "description") ↔
          (entries.get? "description").all g.isTruthy = true)) := by
  have named : normal.naming.isNamed schema = true :=
    (mem_nodes_iff given).1 (List.mem_map_of_mem member)
  have plain : ∀ id, normal.naming.isNamed id = true → defined? g (.node id) = some id :=
    fun id isNamed => defined_of_isNamed given isNamed
  obtain ⟨_, entries, found, _⟩ := defined?_eq_some (plain schema named)
  obtain ⟨other, image, copies, isId, listed, mirrors, held, absent, present⟩ :=
    Standalone.exists_description wellFormed plain named found
  obtain ⟨_, _, _, _, _, definitions, schemas, _⟩ := exists_proposals given
  have same : other = id := by
    rw [schemas] at member
    obtain ⟨_, _, entry⟩ := List.mem_map.1 member
    injection entry with isOther isSchema
    rw [isSchema, idOf, isId] at isOther
    exact isOther
  obtain ⟨isGraph, areDefinitions⟩ := Compile.definitions_eq given
  rw [← isGraph] at mirrors held present
  rw [← areDefinitions, same] at listed
  refine ⟨image, entries, copies, mirrors, listed, found, held, fun shows => ?_,
    fun generated => ?_⟩
  · cases own : entries.get? "description" with
    | some v =>
      rw [← own]
      exact present (by rw [own, Option.isSome_some])
    | none =>
      have byEntry := shows.resolve_left (by simp [own])
      rw [absent own, descriptionOf?_of_namedByEntry given byEntry]
      exact .none
  · obtain ⟨calls, text, listedCalls, first, proposed⟩ :=
      descriptionOf?_of_generated given named generated
    obtain ⟨call, _, madeUp⟩ := List.exists_of_findSome?_eq_some first
    have proper := ne_empty_of_bodyText? madeUp
    refine ⟨calls, text, listedCalls, first, isDescribed_iff proper (fun none => ?_) present⟩
    rw [absent none, proposed]
    simp [Option.filter, proper]

/-- A description with one operation, whose request body has a schema with the given entries. -/
def postingBody (entries : Entries) : Graph := ⟨#[
  .mapping [(.str "openapi", .str "3.0.0"), (.str "paths", .node 1)],
  .mapping [(.str "/a", .node 2)],
  .mapping [(.str "post", .node 3)],
  .mapping [(.str "requestBody", .node 4)],
  .mapping [(.str "content", .node 5)],
  .mapping [(.str "application/json", .node 6)],
  .mapping [(.str "schema", .node 7)],
  .mapping ((.str "type", .str "string") :: entries)]⟩

/-- A schema without a description gets the text of the operation, in its definition. -/
theorem described_postingBody : ∃ normal place copies,
    normalise (postingBody []) (.node 0) = .ok normal ∧
      ("a_requestbody", .node place) ∈ normal.definitions ∧
      normal.graph.get? place = some (.mapping copies) ∧
      copies.get? "description" = some (.str "Request body for POST /a") := by
  obtain ⟨normal, given, computed⟩ : ∃ normal, normalise (postingBody []) (.node 0) = .ok normal ∧
      (normal.schemas, normal.naming.isNamed 7, normal.naming.isGenerated 7) =
        ([("a_requestbody", 7)], true, true) := exists_of_toOption_map (by decide +kernel)
  injection computed with schemas flags
  injection flags with named generated
  have member : ("a_requestbody", 7) ∈ normal.schemas := by
    rw [schemas]
    exact List.mem_singleton_self _
  obtain ⟨image, entries, copies, _, listed, found, held, _, madeUp⟩ :=
    described_iff (Graph.wellFormed_of_checked (by decide +kernel)) given member
  obtain ⟨found', text, listedCalls, first, described⟩ :=
    madeUp ((isGenerated_iff given named).1 generated)
  have isText : text = "Request body for POST /a" := by
    have computed : (calls (postingBody []) (.node 0)).toOption.bind
        (fun found => found.findSome? (·.bodyText? 7)) = some "Request body for POST /a" := by
      decide +kernel
    rw [listedCalls] at computed
    exact Option.some.inj (first.symm.trans computed)
  have own : entries.get? "description" = none := by
    cases found
    rfl
  rw [own] at described
  refine ⟨normal, _, copies, given, listed, held, ?_⟩
  rw [← isText]
  exact (described.2 rfl).2 rfl

/-- An empty description overwrites the text that was put in its place. -/
theorem not_described_emptyText : ∃ normal place copies,
    normalise (postingBody [(.str "description", .str "")]) (.node 0) = .ok normal ∧
      normal.generatedIds = ["a_requestbody"] ∧
      ("a_requestbody", .node place) ∈ normal.definitions ∧
      normal.graph.get? place = some (.mapping copies) ∧
      copies.get? "description" ≠ some (.str "Request body for POST /a") := by
  obtain ⟨normal, given, computed⟩ : ∃ normal,
      normalise (postingBody [(.str "description", .str "")]) (.node 0) = .ok normal ∧
        (normal.generatedIds, normal.definitions, normal.graph.get? 8) =
          (["a_requestbody"], [("a_requestbody", .node 8)], some (.mapping
            [(.str "title", .str "A_RequestBody"), (.str "description", .str ""),
              (.str "type", .str "string")])) := exists_of_toOption_map (by decide +kernel)
  injection computed with generated rest
  injection rest with definitions held
  refine ⟨normal, 8, _, given, generated, ?_, held, by decide +kernel⟩
  rw [definitions]
  exact List.mem_singleton_self _

end Typewright.Api
