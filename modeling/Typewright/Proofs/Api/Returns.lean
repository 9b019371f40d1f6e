import Typewright.Proofs.Api.Index
import Typewright.Proofs.Api.Registered
import Typewright.Proofs.Compile.Compiled

/-!
# Descriptions with malformed parts

Most of what a description holds where something else is expected is left out, and what is no
mapping is rendered as unknown where a schema is expected. What is relied on is little: the
components of a newer description (`Api.ComponentsFit`), the parameters of an operation
(`Operation.ParametersFit`), and what compiling a schema reads (`Compile.Job.Reads`). Besides, no
integer that stands for a name, a path or a status has too many digits for a text (`Api.KeysFit`,
`Operation.hasLongStatus`). A description without references is normalised and compiled exactly if
these are of a kind that is taken (`Api.returns_iff`).
-/

namespace Typewright

open Schema

namespace Operation

variable {g : Graph} {operation : Entries}

/-- The parameters of an operation can be gone through, where they are looked at. -/
def ParametersFit (g : Graph) (operation : Entries) : Prop :=
  operation.has "requestBody" = false → ∀ v, operation.get? "parameters" = some v →
    g.isTruthy v = true → ∃ values, Compile.elements g v = .ok values

theorem parameters_returns_iff : (∃ listed, parameters g operation = .ok listed) ↔
    ∀ v, operation.get? "parameters" = some v → g.isTruthy v = true →
      ∃ values, Compile.elements g v = .ok values := by
  rw [parameters]
  cases held : operation.get? "parameters" with
  | none => simp
  | some v =>
    simp only [Option.some.injEq, forall_eq']
    generalize g.isTruthy v = truthy
    cases v with
    | scalar s => cases s <;> cases truthy <;> simp [Compile.elements, Graph.node?]
    | node id =>
      simp only [Compile.elements, Graph.node?]
      cases g.get? id with
      | none => cases truthy <;> simp
      | some node => cases node <;> simp

theorem requestSchema?_returns_iff :
    (∃ request, requestSchema? g operation = .ok request) ↔ ParametersFit g operation := by
  rw [requestSchema?, ParametersFit, Entries.has]
  cases operation.get? "requestBody" with
  | some body => simp
  | none =>
    rw [← parameters_returns_iff]
    cases parameters g operation with
    | ok listed => simp [bind, Except.bind, pure, Except.pure]
    | error e => simp [bind, Except.bind]

end Operation

namespace Api

section

variable {g : Graph} {document : Value}

/-- The components of a newer description are a mapping, or count as false. -/
def ComponentsFit (g : Graph) (document : Value) : Prop :=
  isVersion3 g document = true → ∀ components, g.field? document "components" = some components →
    g.isTruthy components = false ∨ g.isMapping components = true

/-- No key of a mapping in the components, the definitions or the paths is an integer with too many
digits. -/
structure KeysFit (g : Graph) (document : Value) : Prop where
  components : isVersion3 g document = true → ∀ components,
    g.field? document "components" = some components →
      ∀ part ∈ ["schemas", "responses", "requestBodies"],
        hasLongKey g (g.field? components part) = false
  definitions : isVersion3 g document = false →
    hasLongKey g (g.field? document "definitions") = false
  paths : hasLongKey g (g.field? document "paths") = false

/-- What has passed a check for integers with too many digits. -/
theorem exists_after_refuseLong_iff {α : Type} {long : Bool} {a : α} :
    (∃ b, (do
      Error.refuseLong long
      return a : Except Error α) = .ok b) ↔ long = false := by
  cases long
  · exact iff_of_true ⟨a, rfl⟩ rfl
  · exact iff_of_false (fun ⟨_, given⟩ => by cases given) nofun

/-- A value that is no mapping has no keys in any section. -/
theorem hasLongKey_of_not_mapping {v : Value} (noMapping : g.isMapping v = false) (part : String) :
    hasLongKey g (g.field? v part) = false := by
  rw [Graph.isMapping, Option.isSome_eq_false_iff, Option.isNone_iff_eq_none] at noMapping
  rw [Graph.field?, noMapping]
  rfl

theorem componentProposals_returns_iff :
    (∃ proposals, componentProposals g document = .ok proposals) ↔ ComponentsFit g document ∧
      (isVersion3 g document = true → ∀ components,
        g.field? document "components" = some components →
          ∀ part ∈ ["schemas", "responses", "requestBodies"],
            hasLongKey g (g.field? components part) = false) ∧
      (isVersion3 g document = false → hasLongKey g (g.field? document "definitions") = false) := by
  rw [componentProposals, ComponentsFit]
  split
  · next newer =>
    cases g.field? document "components" with
    | none => simp [newer]
    | some components =>
      dsimp only
      cases isMapping : g.isMapping components with
      | true =>
        rw [if_pos rfl, exists_after_refuseLong_iff, List.any_eq_false]
        simp [newer, isMapping]
      | false =>
        have short := hasLongKey_of_not_mapping isMapping
        cases truthy : g.isTruthy components <;> simp [newer, isMapping, truthy, short]
  · next older =>
    rw [exists_after_refuseLong_iff]
    simp [older]

/-- An entry of a path item gives its operation, if the parameters can be gone through and no status
has too many digits. -/
theorem callsAt_returns {path : String} {entry : Scalar × Value}
    (fit : ∀ method id operation, entry = (.str method, .node id) →
      method ∈ Operation.methods → defined? g (.node id) = some id →
      g.get? id = some (.mapping operation) → Operation.ParametersFit g operation ∧
        Operation.hasLongStatus g operation = false) :
    ∃ found, callsAt g path entry = .ok found := by
  obtain ⟨key, v⟩ := entry
  rw [callsAt]
  split
  · next method operation isText read =>
    split
    · next usable =>
      rw [Bool.and_eq_true, isDefined, Option.isSome_iff_exists] at usable
      obtain ⟨isMethod, id, defined⟩ := usable
      obtain ⟨rfl, _⟩ := defined?_eq_some defined
      cases isText
      obtain ⟨parameters, short⟩ := fit method id operation rfl
        (by simpa [Operation.isMethod] using isMethod) defined (Graph.get?_of_entries? read)
      obtain ⟨request, asked⟩ := Operation.requestSchema?_returns_iff.2 parameters
      rw [asked, short]
      exact ⟨_, rfl⟩
    · exact ⟨_, rfl⟩
  · exact ⟨_, rfl⟩

/-- A path item gives its operations, if each of its entries does. -/
theorem callsUnder_returns {path : String} {item : Nat}
    (fit : ∀ method id operation, Entry g (some (.node item)) (.str method) id →
      method ∈ Operation.methods → g.get? id = some (.mapping operation) →
        Operation.ParametersFit g operation ∧ Operation.hasLongStatus g operation = false) :
    ∃ found, callsUnder g path item = .ok found := by
  have all : ∀ held ∈ (g.entries? (.node item)).getD [],
      ∃ found, callsAt g path held = .ok found := by
    intro held inside
    refine callsAt_returns fun method id operation same isMethod defined found => ?_
    refine fit method id operation ?_ isMethod found
    cases read : g.entries? (.node item) with
    | none =>
      rw [read] at inside
      cases inside
    | some entries =>
      rw [read, same] at inside
      exact ⟨entries, read, inside, defined⟩
  obtain ⟨under, listed⟩ := exists_mapM_ok all
  rw [callsUnder_eq, listed]
  exact ⟨_, rfl⟩

/-- The operations of a description can be gone through exactly if their parameters can, and no path
and no status has too many digits. -/
theorem calls_returns_iff : (∃ found, calls g document = .ok found) ↔
    hasLongKey g (g.field? document "paths") = false ∧
      ∀ path method item id operation, Operates g document path method item id operation →
        Operation.ParametersFit g operation ∧ Operation.hasLongStatus g operation = false := by
  constructor
  · intro returns
    obtain ⟨found, given⟩ := returns
    refine ⟨?_, fun path method item id operation operates => ?_⟩
    · rw [calls] at given
      obtain ⟨_, checked, _⟩ := exists_of_bind_ok given
      exact refuseLong_eq_ok_iff.1 checked
    · obtain ⟨call, _, _, describes⟩ := exists_call_of_operates given operates
      exact ⟨Operation.requestSchema?_returns_iff.1 ⟨_, describes.request⟩, describes.short⟩
  · intro both
    obtain ⟨shortPaths, fit⟩ := both
    have each : ∀ entry ∈ definedEntries g (g.field? document "paths"),
        ∃ found, callsUnder g entry.1 entry.2 = .ok found := by
      intro entry member
      obtain ⟨path, underPaths, _⟩ := mem_definedEntries_iff.1
        (show (entry.1, entry.2) ∈ definedEntries g (g.field? document "paths") from member)
      exact callsUnder_returns fun method id operation underItem isMethod found =>
        fit path method entry.2 id operation ⟨underPaths, underItem, isMethod, found⟩
    obtain ⟨under, listed⟩ := exists_mapM_ok each
    refine ⟨under.flatten, ?_⟩
    rw [calls, shortPaths]
    change ((definedEntries g (g.field? document "paths")).mapM
      (fun entry => callsUnder g entry.1 entry.2) >>= fun under => pure under.flatten) = _
    rw [listed]
    rfl

/-- A mapping is normalised exactly if its components and the parameters of its operations can be
gone through, and no integer that a text is made of has too many digits. -/
theorem normalise_returns_iff {root : Nat} {entries : Entries}
    (found : g.get? root = some (.mapping entries)) :
    (∃ normal, normalise g (.node root) = .ok normal) ↔
      ComponentsFit g (.node root) ∧ KeysFit g (.node root) ∧
      ∀ path method item id operation, Operates g (.node root) path method item id operation →
        Operation.ParametersFit g operation ∧ Operation.hasLongStatus g operation = false := by
  constructor
  · intro returns
    obtain ⟨normal, given⟩ := returns
    obtain ⟨components, calls, proposed, listed, _⟩ := exists_proposals given
    obtain ⟨fit, inComponents, inDefinitions⟩ :=
      componentProposals_returns_iff.1 ⟨components, proposed⟩
    obtain ⟨inPaths, operations⟩ := calls_returns_iff.1 ⟨calls, listed⟩
    exact ⟨fit, ⟨inComponents, inDefinitions, inPaths⟩, operations⟩
  · intro all
    obtain ⟨fit, keys, operations⟩ := all
    obtain ⟨components, proposed⟩ :=
      componentProposals_returns_iff.2 ⟨fit, keys.components, keys.definitions⟩
    obtain ⟨calls, listed⟩ := calls_returns_iff.2 ⟨keys.paths, operations⟩
    have checked : checkMapping g (.node root) = .ok () := by
      simp only [checkMapping, Graph.node?, found]
    rw [normalise, checked, proposed, listed]
    exact ⟨_, rfl⟩

end

/-! ## Normalised and compiled -/

section

variable {g : Graph} {document : Value} {normal : Normal}

/-- Every endpoint is one of an operation. -/
theorem exists_describes_of_endpoint (given : normalise g document = .ok normal) {e : Endpoint}
    (member : e ∈ normal.endpoints) : ∃ call path item id operation,
      e = endpoint normal.naming call ∧ Describes g document call path item id operation := by
  obtain ⟨_, found, _, listed, _, _, _, endpoints⟩ := exists_proposals given
  rw [endpoints] at member
  obtain ⟨call, inCalls, rfl⟩ := List.mem_map.1 (Keyed.mem_of_mem_ofList member)
  obtain ⟨path, item, id, operation, describes⟩ := exists_of_mem_calls listed inCalls
  exact ⟨call, path, item, id, operation, rfl, describes⟩

/-- Every operation has an endpoint, which may be that of another with the same id. -/
theorem exists_endpoint_of_operates (given : normalise g document = .ok normal) {path : Scalar}
    {method : String} {item id : Nat} {operation : Entries}
    (operates : Operates g document path method item id operation) :
    ∃ e ∈ normal.endpoints, e.id = indexId (Display.scalar path) method := by
  obtain ⟨_, found, _, listed, _, _, _, endpoints⟩ := exists_proposals given
  obtain ⟨call, inCalls, same, describes⟩ := exists_call_of_operates listed operates
  have isId : (endpoint normal.naming call).id ∈ normal.endpoints.map (·.id) := by
    rw [endpoints, Keyed.keys_ofList, List.mem_eraseDups, List.map_map]
    exact List.mem_map_of_mem (f := _) inCalls
  obtain ⟨e, member, id⟩ := List.mem_map.1 isId
  refine ⟨e, member, id.trans ?_⟩
  rw [← same, ← describes.path]
  rfl

/-- What becomes of a normalised description. Named are the schemas that stand in their places, and
the endpoints are those of the operations that do; all else is left out. The definitions are
compiled exactly if what this comes to can be read, and so they are if what the named schemas render
is regular; what is no mapping is rendered as unknown where a schema is expected, but for the value
that is false. -/
structure OmitsMalformed (g : Graph) (document : Value) (normal : Normal) : Prop where
  named : ∀ schema, normal.naming.isNamed schema = true ↔
    NamedByEntry g document schema ∨ HeldByOperation g document schema
  endpoints : ∀ e ∈ normal.endpoints, ∃ call path item id operation,
    e = endpoint normal.naming call ∧ Describes g document call path item id operation
  operations : ∀ path method item id operation,
    Operates g document path method item id operation →
    ∃ e ∈ normal.endpoints, e.id = indexId (Display.scalar path) method
  compiled : (∃ source, Compile.wholeSource normal.graph normal.definitions = .ok source) ↔
    ∀ place, Relation.ReflTransGen normal.job.Compiles normal.job.root place →
      normal.job.Reads place
  regular : (∀ schema, normal.naming.isNamed schema = true → ∀ id,
      Relation.ReflTransGen (Rendered g) schema id → ∀ entries,
        g.get? id = some (.mapping entries) → Compile.Regular g entries) →
    ∃ source, Compile.wholeSource normal.graph normal.definitions = .ok source
  unknown : ∀ v, normal.job.graph.isMapping v = false → v ≠ .bool false →
    ∀ depth around named draft,
      (normal.job.expression (depth + 1) around named v).run draft = .ok (.unknown, draft)

end

/-- A description without references that is a mapping is normalised exactly if its components and
the parameters of its operations are of a kind that is taken, and the integers that texts are made of
are short enough. What is malformed besides is omitted, or not read. -/
theorem returns_iff {g : Graph} {root : Nat} {entries : Entries} (wellFormed : g.WellFormed)
    (holdsNone : HoldsNoReference g) (found : g.get? root = some (.mapping entries)) :
    ((∃ normal, normalise g (.node root) = .ok normal) ↔
      ComponentsFit g (.node root) ∧ KeysFit g (.node root) ∧
      ∀ path method item id operation, Operates g (.node root) path method item id operation →
        Operation.ParametersFit g operation ∧ Operation.hasLongStatus g operation = false) ∧
    ∀ normal, normalise g (.node root) = .ok normal →
      OmitsMalformed g (.node root) normal := by
  refine ⟨normalise_returns_iff found, fun normal given => ?_⟩
  exact {
    named := fun schema => isNamed_iff_met given
    endpoints := fun e member => exists_describes_of_endpoint given member
    operations := fun path method item id operation operates =>
      exists_endpoint_of_operates given operates
    compiled := Compile.wholeSource_returns_iff given wellFormed holdsNone
    regular := fun regular => Compile.wholeSource_returns given wellFormed holdsNone
      fun schema named => regular schema (Naming.isNamed_iff.2 named)
    unknown := fun v other proper depth around named draft =>
      Compile.expression_of_not_mapping other proper depth around named draft }

/-- Whether no mapping has an entry under a text. -/
def lacksKey (g : Graph) (key : String) : Bool :=
  g.nodes.toList.all fun
    | .mapping entries => !entries.has key
    | .sequence _ => true

theorem holdsNoReference_of_lacksKey {g : Graph} (lacks : lacksKey g refKey = true) :
    HoldsNoReference g := by
  intro _ child _
  rw [Graph.hasField, Graph.field?]
  cases read : g.entries? (.node child) with
  | none => rfl
  | some entries =>
    simpa [Entries.has] using Graph.of_all_nodes lacks (Graph.get?_of_entries? read)

/-- A description in which numbers, texts and lists stand in the place of schemas, path items,
operations, responses and keys. -/
def malformedParts : Graph :=
  ⟨#[.mapping [(.str "openapi", .str "3.0.0"), (.str "components", .node 1),
      (.str "paths", .node 6)],
    .mapping [(.str "schemas", .node 2), (.str "responses", .bool true)],
    .mapping [(.str "A", .node 3), (.str "B", .scalar (.int 5))],
    .mapping [(.str "type", .str "object"), (.str "properties", .node 4),
      (.str "required", .str "")],
    .mapping [(.str "a", .scalar (.int 7)), (.str "b", .node 5)],
    .mapping [(.str "type", .str "array"), (.str "items", .str "x"),
      (.str "allOf", .scalar (.int 1))],
    .mapping [(.str "/a", .str "x"), (.str "/b", .node 7)],
    .mapping [(.str "get", .scalar (.int 3)), (.str "put", .node 8)],
    .mapping [(.str "parameters", .str ""), (.str "responses", .node 9)],
    .sequence []]⟩

theorem returns_malformedParts : ∃ normal source,
    normalise malformedParts (.node 0) = .ok normal ∧
    Compile.wholeSource normal.graph normal.definitions = .ok source := by
  have wellFormed : malformedParts.WellFormed := Graph.wellFormed_of_checked (by decide)
  have holdsNone : HoldsNoReference malformedParts :=
    holdsNoReference_of_lacksKey (by decide)
  obtain ⟨entries, found⟩ : ∃ entries, malformedParts.get? 0 = some (.mapping entries) := ⟨_, rfl⟩
  obtain ⟨normalised, compiled⟩ := returns_iff wellFormed holdsNone found
  have fit : malformedParts.nodes.toList.all (fun
      | .mapping entries => ((entries.get? "parameters").all fun v => !malformedParts.isTruthy v) &&
          !Operation.hasLongStatus malformedParts entries
      | .sequence _ => true) = true := by decide
  have regular : malformedParts.nodes.toList.all (fun
      | .mapping entries => Compile.isRegular malformedParts entries
      | .sequence _ => true) = true := by decide
  obtain ⟨normal, given⟩ := normalised.2 (by
    refine ⟨fun _ components held => ?_, ⟨fun _ components held => ?_, nofun, by decide⟩,
      fun _ _ _ _ operation operates => ?_⟩
    · obtain rfl : Value.node 1 = components := Option.some.inj held
      exact .inr rfl
    · obtain rfl : Value.node 1 = components := Option.some.inj held
      decide
    · obtain ⟨falsy, short⟩ := Bool.and_eq_true_iff.1 (Graph.of_all_nodes fit operates.found)
      refine ⟨fun _ v held truthy => ?_, (Bool.not_eq_true' _).mp short⟩
      have checked := (Option.all_eq_true _ _).1 falsy v held
      rw [truthy] at checked
      cases checked)
  obtain ⟨source, made⟩ := (compiled normal given).regular fun _ _ _ _ _ found =>
    Compile.regular_of_isRegular (Graph.of_all_nodes regular found)
  exact ⟨normal, source, given, made⟩

/-- A description in which a schema requires `true`. -/
def requiredFlag : Graph :=
  ⟨#[.mapping [(.str "openapi", .str "3.0.0"), (.str "components", .node 1)],
    .mapping [(.str "schemas", .node 2)],
    .mapping [(.str "A", .node 3)],
    .mapping [(.str "type", .str "object"), (.str "required", .bool true)]]⟩

/-- A truth value in the place of the keys that are required is not omitted. -/
theorem not_returns_requiredFlag :
    lacksKey requiredFlag refKey = true ∧ lacksKey requiredFlag "tsType" = true ∧
    ∃ normal, normalise requiredFlag (.node 0) = .ok normal ∧
      Compile.wholeSource normal.graph normal.definitions = .error .wrongKind := by
  have computed : (normalise requiredFlag (.node 0)).toOption.map (fun normal =>
      match Compile.wholeSource normal.graph normal.definitions with
      | .ok _ => false
      | .error e => e == .wrongKind) = some true := by decide +kernel
  obtain ⟨normal, given, refused⟩ := exists_of_toOption_map computed
  refine ⟨by decide, by decide, normal, given, ?_⟩
  cases made : Compile.wholeSource normal.graph normal.definitions with
  | ok source =>
    rw [made] at refused
    cases refused
  | error e =>
    rw [made] at refused
    rw [beq_iff_eq.1 refused]

end Api

end Typewright
