import Typewright.Proofs.Api.Normal
import Typewright.Proofs.Api.Operations
import Typewright.Proofs.Schema.Renumbered

/-!
# Descriptions under other numbers

Normalising reads a description through its mappings and lists only, so the same description under
other numbers has the same proposals, operations and names. Either both are refused for one reason,
or the results are the same up to numbers (`Api.normalise_renumber`).
-/

namespace Typewright

/-! ## Operations -/

namespace Operation

open Schema

variable {g h : Graph} {f : Nat → Nat} (renumbers : g.Renumbers h f)
include renumbers

theorem heldSchema?_renumber (v : Value) :
    heldSchema? h (v.renumber f) = (heldSchema? g v).map f := by
  rw [heldSchema?, heldSchema?, renumbers.field?]
  cases g.field? v "schema" with
  | none => rfl
  | some held => exact defined?_renumber renumbers held

theorem contentSchema?_renumber (content : Value) :
    contentSchema? h (content.renumber f) = (contentSchema? g content).map f := by
  rw [contentSchema?, contentSchema?, renumbers.entries?]
  cases g.entries? content with
  | none => rfl
  | some entries =>
    simp only [Option.map_some, Option.getD_some]
    induction entries with
    | nil => rfl
    | cons entry entries ih =>
      rw [Entries.renumber_cons, List.findSome?_cons, List.findSome?_cons, ih,
        isDefined_renumber renumbers, heldSchema?_renumber renumbers]
      cases isDefined g entry.2 with
      | false => rfl
      | true => cases heldSchema? g entry.2 <;> rfl

theorem parameters_renumber (operation : Entries) :
    parameters h (operation.renumber f) =
      (parameters g operation).map (List.map (Value.renumber f)) := by
  unfold parameters
  rw [Entries.get?_renumber]
  cases operation.get? "parameters" with
  | none => rfl
  | some v =>
    simp only [Option.map_some, renumbers.node?, renumbers.isTruthy]
    cases v with
    | scalar s =>
      rcases s with _ | _ | _ | _ | _ | _ | _ | _ | _
      case str | bytes => rfl
      all_goals
        simp only [Value.renumber_scalar, Graph.node?, Option.map_none]
        split <;> rfl
    | node id =>
      rcases g.node? (.node id) with _ | _ | _
      · simp only [Value.renumber_node, Option.map_none]
        split <;> rfl
      · rfl
      · rfl

theorem isBodyParameter_renumber (parameter : Value) :
    isBodyParameter h (parameter.renumber f) = isBodyParameter g parameter := by
  rw [isBodyParameter, isBodyParameter, isDefined_renumber renumbers, renumbers.field?]
  rcases g.field? parameter "in" with _ | _ | _ <;> rfl

theorem requestSchema?_renumber (operation : Entries) :
    requestSchema? h (operation.renumber f) =
      (requestSchema? g operation).map (Option.map f) := by
  unfold requestSchema?
  rw [Entries.get?_renumber]
  cases operation.get? "requestBody" with
  | some body =>
    simp only [Option.map_some, isDefined_renumber renumbers, renumbers.field?]
    split
    · cases g.field? body "content" with
      | none => rfl
      | some content => exact congrArg Except.ok (contentSchema?_renumber renumbers content)
    · rfl
  | none =>
    simp only [Option.map_none, parameters_renumber renumbers]
    cases parameters g operation with
    | error e => rfl
    | ok found =>
      refine congrArg Except.ok ?_
      induction found with
      | nil => rfl
      | cons parameter found ih =>
        rw [List.map_cons, List.findSome?_cons, List.findSome?_cons, ih,
          isBodyParameter_renumber renumbers, heldSchema?_renumber renumbers]
        cases isBodyParameter g parameter with
        | false => rfl
        | true => cases heldSchema? g parameter <;> rfl

theorem responseSchema?_renumber (response : Value) :
    responseSchema? h (response.renumber f) = (responseSchema? g response).map f := by
  unfold responseSchema?
  rw [isDefined_renumber renumbers, renumbers.field?]
  split
  · cases g.field? response "content" with
    | none => exact heldSchema?_renumber renumbers response
    | some content => exact contentSchema?_renumber renumbers content
  · rfl

theorem responseSchemas_renumber (operation : Entries) :
    responseSchemas h (operation.renumber f) =
      (responseSchemas g operation).map fun entry => (entry.1, f entry.2) := by
  rw [responseSchemas_eq, responseSchemas_eq, renumbers.bind_entries?,
    ← Keyed.ofList_map Prod.fst fun _ => rfl]
  cases (operation.get? "responses").bind g.entries? with
  | none => rfl
  | some entries =>
    rw [Option.map_some, Option.getD_some, Option.getD_some, Entries.renumber,
      List.filterMap_map, List.map_filterMap]
    congr 1
    refine List.filterMap_congr fun entry _ => ?_
    dsimp only [Function.comp_apply]
    rw [responseSchema?_renumber renumbers, Option.map_map, Option.map_map]
    rfl

theorem hasLongStatus_renumber (operation : Entries) :
    hasLongStatus h (operation.renumber f) = hasLongStatus g operation := by
  unfold hasLongStatus
  rw [renumbers.bind_entries?]
  cases (operation.get? "responses").bind g.entries? with
  | none => rfl
  | some entries =>
    simp [Entries.renumber, List.any_map, Function.comp_def, responseSchema?_renumber renumbers]

end Operation

namespace Api

open Schema

/-- An operation whose schemas have other numbers. -/
def Call.renumber (f : Nat → Nat) (call : Call) : Call :=
  { call with
    request := call.request.map f
    responses := call.responses.map fun entry => (entry.1, f entry.2) }

theorem callProposals_renumber (f : Nat → Nat) (call : Call) :
    callProposals (call.renumber f) = (callProposals call).map (Proposal.renumber f) := by
  obtain ⟨path, method, request, responses⟩ := call
  cases request <;> simp [callProposals, Call.renumber, Proposal.renumber]

theorem nameAll_renumber {f : Nat → Nat} (injective : Function.Injective f)
    (proposals : List Proposal) :
    nameAll (proposals.map (Proposal.renumber f)) = (nameAll proposals).renumber f := by
  rw [nameAll, nameAll, ← Naming.finalize_renumber injective]
  exact congrArg Naming.finalize
    (Naming.foldl_renumber (.withReserved [topLevelTitle]) (Naming.propose_renumber injective)
      proposals)

section

variable {f : Nat → Nat} (injective : Function.Injective f) (naming : Naming)
include injective

theorem idOf_renumber (schema : Nat) : idOf (naming.renumber f) (f schema) = idOf naming schema := by
  rw [idOf, idOf, naming.idOf?_renumber injective]

theorem endpoint_renumber (call : Call) :
    endpoint (naming.renumber f) (call.renumber f) = endpoint naming call := by
  simp [endpoint, Call.renumber, Function.comp_def, idOf_renumber injective]

end

section

variable {g h : Graph} {f : Nat → Nat} (renumbers : g.Renumbers h f)
include renumbers

/-! ## Proposals -/

theorem bind_entries?_renumber (part : Option Value) :
    (part.map (Value.renumber f)).bind h.entries? =
      (part.bind g.entries?).map (Entries.renumber f) := by
  cases part with
  | none => rfl
  | some v => exact renumbers.entries? v

theorem hasLongKey_renumber (part : Option Value) :
    hasLongKey h (part.map (Value.renumber f)) = hasLongKey g part := by
  unfold hasLongKey
  rw [bind_entries?_renumber renumbers]
  cases part.bind g.entries? with
  | none => rfl
  | some entries =>
    simp [Entries.renumber, List.any_map, Function.comp_def, isDefined_renumber renumbers]

theorem definedEntries_renumber (part : Option Value) :
    definedEntries h (part.map (Value.renumber f)) =
      (definedEntries g part).map fun entry => (entry.1, f entry.2) := by
  unfold definedEntries
  rw [bind_entries?_renumber renumbers]
  cases part.bind g.entries? with
  | none => rfl
  | some entries =>
    simp only [Option.map_some, Option.getD_some]
    rw [Entries.renumber, List.filterMap_map, List.map_filterMap]
    refine List.filterMap_congr fun entry _ => ?_
    rw [Function.comp_apply, defined?_renumber renumbers]
    cases defined? g entry.2 <;> rfl

theorem schemaProposals_renumber (part : Option Value) :
    schemaProposals h (part.map (Value.renumber f)) =
      (schemaProposals g part).map (Proposal.renumber f) := by
  simp [schemaProposals, definedEntries_renumber renumbers, Proposal.renumber]

theorem contentProposals_renumber (part : Option Value) :
    contentProposals h (part.map (Value.renumber f)) =
      (contentProposals g part).map (Proposal.renumber f) := by
  rw [contentProposals, contentProposals, definedEntries_renumber renumbers, List.filterMap_map,
    List.map_filterMap]
  refine List.filterMap_congr fun entry _ => ?_
  have held : (h.field? (.node (f entry.2)) "content").bind (Operation.contentSchema? h) =
      ((g.field? (.node entry.2) "content").bind (Operation.contentSchema? g)).map f := by
    rw [← Value.renumber_node, renumbers.field?]
    cases g.field? (.node entry.2) "content" with
    | none => rfl
    | some content => exact Operation.contentSchema?_renumber renumbers content
  dsimp only [Function.comp_apply]
  rw [held]
  cases (g.field? (.node entry.2) "content").bind (Operation.contentSchema? g) <;> rfl

theorem componentProposals_renumber (document : Value) :
    componentProposals h (document.renumber f) =
      (componentProposals g document).map (List.map (Proposal.renumber f)) := by
  have newer : isVersion3 h (document.renumber f) = isVersion3 g document := by
    rw [isVersion3, isVersion3, renumbers.field?, Option.isSome_map]
  unfold componentProposals
  rw [newer, renumbers.field?, renumbers.field?, schemaProposals_renumber renumbers,
    hasLongKey_renumber renumbers]
  split
  · cases g.field? document "components" with
    | none => rfl
    | some components =>
      simp only [Option.map_some, renumbers.isMapping, renumbers.isTruthy, renumbers.field?,
        schemaProposals_renumber renumbers, contentProposals_renumber renumbers,
        hasLongKey_renumber renumbers]
      split
      · rw [← List.map_append, ← List.map_append]
        exact map_after_refuseLong _ (.ok _)
      · split <;> rfl
  · exact map_after_refuseLong _ (.ok _)

/-! ## Operations of a description -/

theorem callsAt_renumber (path : String) (entry : Scalar × Value) :
    callsAt h path (entry.1, entry.2.renumber f) =
      (callsAt g path entry).map (List.map (Call.renumber f)) := by
  unfold callsAt
  dsimp only
  rw [renumbers.entries?, isDefined_renumber renumbers]
  cases entry.1 with
  | str method =>
    cases g.entries? entry.2 with
    | none => rfl
    | some operation =>
      dsimp only [Option.map_some]
      split
      · rw [Operation.requestSchema?_renumber renumbers,
          Operation.responseSchemas_renumber renumbers, Operation.hasLongStatus_renumber renumbers]
        cases Operation.requestSchema? g operation with
        | error e => rfl
        | ok request =>
          exact map_after_refuseLong (List.map (Call.renumber f))
            (.ok [⟨path, method, request, Operation.responseSchemas g operation⟩])
      · rfl
  | _ => rfl

omit renumbers in
/-- Putting together what each of several steps lists. -/
theorem flatten_renumber (x : Except Error (List (List Call))) :
    (x.map (List.map (List.map (Call.renumber f))) >>= fun under => pure under.flatten) =
      (x >>= fun under => pure under.flatten).map (List.map (Call.renumber f)) := by
  cases x with
  | error e => rfl
  | ok under => exact congrArg Except.ok List.map_flatten.symm

theorem callsUnder_renumber (path : String) (item : Nat) :
    callsUnder h path (f item) = (callsUnder g path item).map (List.map (Call.renumber f)) := by
  rw [callsUnder_eq, callsUnder_eq, ← flatten_renumber, ← Value.renumber_node,
    renumbers.entries?]
  have each : ∀ entries : Entries, (entries.renumber f).mapM (callsAt h path) =
      (entries.mapM (callsAt g path)).map (List.map (List.map (Call.renumber f))) :=
    fun entries => mapM_map_eq entries fun entry _ => callsAt_renumber renumbers path entry
  cases g.entries? (.node item) with
  | none => rfl
  | some entries =>
    simp only [Option.map_some, Option.getD_some]
    rw [each]

theorem calls_renumber (document : Value) :
    calls h (document.renumber f) = (calls g document).map (List.map (Call.renumber f)) := by
  unfold calls
  rw [renumbers.field?, definedEntries_renumber renumbers, hasLongKey_renumber renumbers,
    ← map_after_refuseLong, ← flatten_renumber]
  refine congrArg (fun x => Error.refuseLong _ >>= fun _ => x >>= _) ?_
  exact mapM_map_eq _ fun entry _ => callsUnder_renumber renumbers entry.1 entry.2

theorem checkMapping_renumber (document : Value) :
    checkMapping h (document.renumber f) = checkMapping g document := by
  unfold checkMapping
  rw [renumbers.node?]
  cases document with
  | scalar s => rfl
  | node id => rcases g.node? (.node id) with _ | _ | _ <;> rfl

end

/-! ## Whole descriptions -/

/-- Two normalised descriptions of the same schemas under other numbers. -/
structure Normal.Renumbers (normal other : Normal) (f : Nat → Nat) : Prop where
  graph : normal.graph.Renumbers other.graph f
  naming : other.naming = normal.naming.renumber f
  schemas : other.schemas = normal.schemas.map fun entry => (entry.1, f entry.2)
  definitions : other.definitions = normal.definitions.map fun made => (made.1, made.2.renumber f)
  endpoints : other.endpoints = normal.endpoints
  generatedIds : other.generatedIds = normal.generatedIds

/-- What the proposals and operations of a description are made into. -/
def normalOf (g : Graph) (components : List Proposal) (calls : List Call) : Normal :=
  let naming := nameAll (components ++ calls.flatMap callProposals)
  let (graph, definitions) := Standalone.definitions g naming
  { graph, naming, definitions
    schemas := naming.namedSchemas.map fun schema => (idOf naming schema, schema)
    endpoints := (calls.map (endpoint naming)).foldl putEndpoint []
    generatedIds := (naming.namedSchemas.filter naming.isGenerated).map (idOf naming) }

theorem normalise_eq (g : Graph) (document : Value) : normalise g document = (do
    checkMapping g document
    let components ← componentProposals g document
    let calls ← calls g document
    return normalOf g components calls) := rfl

theorem normalOf_renumber {g h : Graph} {f : Nat → Nat} (renumbers : g.Renumbers h f)
    (wellFormed : g.WellFormed) {components : List Proposal} {calls : List Call}
    (plain : ∀ id, (normalOf g components calls).naming.isNamed id = true →
      defined? g (.node id) = some id) :
    (normalOf g components calls).Renumbers
      (normalOf h (components.map (Proposal.renumber f)) (calls.map (Call.renumber f))) f := by
  have proposals : components.map (Proposal.renumber f) ++
      (calls.map (Call.renumber f)).flatMap callProposals =
      (components ++ calls.flatMap callProposals).map (Proposal.renumber f) := by
    rw [List.map_append, List.flatMap_map, List.map_flatMap]
    exact congrArg _ (congrArg (calls.flatMap ·) (funext (callProposals_renumber f)))
  have injective := renumbers.injective
  have naming : nameAll (components.map (Proposal.renumber f) ++
      (calls.map (Call.renumber f)).flatMap callProposals) =
      (nameAll (components ++ calls.flatMap callProposals)).renumber f := by
    rw [proposals, nameAll_renumber injective]
  obtain ⟨grown, same⟩ := Standalone.definitions_renumber wellFormed
    (Standalone.namesMappings_of_plain plain) renumbers
  unfold normalOf
  rw [naming]
  refine ⟨grown, rfl, ?_, same, ?_, ?_⟩
  · simp [Naming.namedSchemas_renumber, idOf_renumber injective]
  · simp [Function.comp_def, endpoint_renumber injective]
  · simp [Naming.namedSchemas_renumber, List.filter_map, Function.comp_def,
      idOf_renumber injective, Naming.isGenerated_renumber injective]

/-- A description under other numbers is refused for the same reason, or the results are the same up
to numbers. -/
theorem normalise_renumber {g h : Graph} {f : Nat → Nat} (renumbers : g.Renumbers h f)
    (wellFormed : g.WellFormed) (document : Value) :
    (∃ e, normalise g document = .error e ∧ normalise h (document.renumber f) = .error e) ∨
      ∃ normal other, normalise g document = .ok normal ∧
        normalise h (document.renumber f) = .ok other ∧ normal.Renumbers other f := by
  have given := normalise_eq g document
  rw [normalise_eq h, checkMapping_renumber renumbers, componentProposals_renumber renumbers,
    calls_renumber renumbers]
  cases checked : checkMapping g document with
  | error e =>
    rw [checked] at given
    exact Or.inl ⟨e, given, rfl⟩
  | ok _ =>
  cases proposed : componentProposals g document with
  | error e =>
    rw [checked, proposed] at given
    exact Or.inl ⟨e, given, rfl⟩
  | ok components =>
  cases listed : calls g document with
  | error e =>
    rw [checked, proposed, listed] at given
    exact Or.inl ⟨e, given, rfl⟩
  | ok found =>
    rw [checked, proposed, listed] at given
    exact Or.inr ⟨_, _, given, rfl,
      normalOf_renumber renumbers wellFormed fun id => defined_of_isNamed given⟩

end Api

end Typewright
