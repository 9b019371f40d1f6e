import Typewright.Proofs.Api.Operations

/-!
# Both versions of the format

A description of version 2 keeps its schemas under `definitions`, a body's schema under a parameter
and a response's schema directly under the response. Version 3 keeps the first under `components` and
the others in the content of a media type. Here one graph holds a description in both shapes with the
same schemas (`Api.Restated`), and normalising makes no difference between them
(`Api.normalise_restated`): not in the names and ids, not in the definitions and endpoints, and not in
the error if there is one.

The two sides are read by different code, so each place is shown to select the same schema: a
response (`Api.responseSchema?_restated`), a request body (`Api.requestSchema?_restated`), a path item
(`Api.callsUnder_restated`) and the section of named schemas (`Api.componentProposals_restated`).
-/

namespace Typewright

/-- Going through lists whose members correspond gives the same if each step does. -/
theorem mapM_congr_of_forall₂ {α γ β : Type} {R : α → γ → Prop} (f : α → Except Error β)
    (other : γ → Except Error β) {l : List α} {m : List γ} (alike : List.Forall₂ R l m)
    (each : ∀ a b, R a b → other b = f a) : m.mapM other = l.mapM f := by
  induction alike with
  | nil => rfl
  | cons first _ ih => rw [List.mapM_cons, List.mapM_cons, each _ _ first, ih]

theorem any_congr_of_forall₂ {α γ : Type} {R : α → γ → Prop} {f : α → Bool} {other : γ → Bool}
    {l : List α} {m : List γ} (alike : List.Forall₂ R l m) (each : ∀ a b, R a b → other b = f a) :
    m.any other = l.any f := by
  induction alike with
  | nil => rfl
  | cons first _ ih => rw [List.any_cons, List.any_cons, each _ _ first, ih]

theorem foldl_congr_of_forall₂ {α γ β : Type} {R : α → γ → Prop} {f : β → α → β}
    {other : β → γ → β} {l : List α} {m : List γ} (alike : List.Forall₂ R l m)
    (each : ∀ b x y, R x y → other b y = f b x) (start : β) :
    m.foldl other start = l.foldl f start := by
  induction alike generalizing start with
  | nil => rfl
  | cons first _ ih => rw [List.foldl_cons, List.foldl_cons, each _ _ _ first, ih]

namespace Api

open Schema Operation

/-! ## The two shapes -/

/-- What a section holds, if it is a mapping. -/
def held (g : Graph) (part : Option Value) : Entries :=
  (part.bind g.entries?).getD []

/-- Two sections have the same keys in the same order, with values that correspond. -/
def Alongside (g : Graph) (R : Scalar → Value → Value → Prop) (older newer : Option Value) : Prop :=
  List.Forall₂ (fun a b => b.1 = a.1 ∧ R a.1 a.2 b.2) (held g older) (held g newer)

/-- Two values are both mappings without a reference, which correspond, or neither is one. -/
def Paired (g : Graph) (R : Value → Value → Prop) (older newer : Value) : Prop :=
  isDefined g newer = isDefined g older ∧ (isDefined g older = true → R older newer)

/-- The content of a value is one media type with the given schema. -/
def InContent (g : Graph) (schema holder : Value) : Prop :=
  ∃ content key mediaType, g.field? holder "content" = some content ∧
    g.entries? content = some [(key, mediaType)] ∧ isDefined g mediaType = true ∧
    g.field? mediaType "schema" = some schema

/-- The schema of a response moves into its content. -/
def ResponseRestated (g : Graph) (older newer : Value) : Prop :=
  g.field? older "content" = none ∧
    ((g.field? older "schema" = none ∧ g.field? newer "content" = none ∧
        g.field? newer "schema" = none) ∨
      ∃ schema, g.field? older "schema" = some schema ∧ InContent g schema newer)

/-- A parameter has a schema for the body. -/
def HasBody (g : Graph) (parameter : Value) : Prop :=
  isBodyParameter g parameter = true ∧
    ∃ schema, g.field? parameter "schema" = some schema ∧ isDefined g schema = true

/-- The schema of the first parameter that has one for the body moves into the content of a request
body. An operation that has no request body in the newer shape keeps its parameters. -/
inductive RequestRestated (g : Graph) (older newer : Entries) : Prop
  | moved {list parameter schema body : Value} {before after : List Value}
      (listed : older.get? "parameters" = some list)
      (items : g.items? list = some (before ++ parameter :: after))
      (first : ∀ other ∈ before, ¬ HasBody g other)
      (isBody : isBodyParameter g parameter = true)
      (holds : g.field? parameter "schema" = some schema)
      (usable : isDefined g schema = true)
      (put : newer.get? "requestBody" = some body)
      (plain : isDefined g body = true)
      (content : InContent g schema body)
  | kept (without : newer.get? "requestBody" = none)
      (same : newer.get? "parameters" = older.get? "parameters")

/-- The operations under a method. -/
def OperationRestated (g : Graph) (older newer : Value) : Prop :=
  ∃ old new, g.entries? older = some old ∧ g.entries? newer = some new ∧
    old.get? "requestBody" = none ∧ RequestRestated g old new ∧
    Alongside g (fun _ => Paired g (ResponseRestated g)) (old.get? "responses")
      (new.get? "responses")

/-- The items under a path. What they hold under other keys than those of methods is not read. -/
def PathRestated (g : Graph) (older newer : Value) : Prop :=
  Alongside g
    (fun key old new => isMethod key = true → Paired g (OperationRestated g) old new)
    (some older) (some newer)

/-- The components hold the given definitions and nothing else. -/
def ComponentsHold (g : Graph) (definitions components : Option Value) : Prop :=
  (components = none ∧ held g definitions = []) ∨
    ∃ v sections, components = some v ∧ g.entries? v = some sections ∧
      (∀ entry ∈ sections, entry.1 = .str "schemas") ∧
      held g (sections.get? "schemas") = held g definitions

/-- A description of version 2 and the same one in the shape of version 3. -/
structure Restated (g : Graph) (older newer : Value) : Prop where
  isMapping : g.isMapping older = true ∧ g.isMapping newer = true
  second : isVersion3 g older = false
  third : isVersion3 g newer = true
  components : ComponentsHold g (g.field? older "definitions") (g.field? newer "components")
  paths : Alongside g (fun _ => Paired g (PathRestated g)) (g.field? older "paths")
    (g.field? newer "paths")

variable {g : Graph}

/-! ## Responses -/

/-- What is found in a content with one media type. -/
theorem contentSchema?_of_inContent {schema holder : Value} (inside : InContent g schema holder) :
    (g.field? holder "content").bind (contentSchema? g) = defined? g schema := by
  rcases inside with ⟨content, key, mediaType, found, one, plain, holds⟩
  have held : heldSchema? g mediaType = defined? g schema := by
    rw [heldSchema?, holds, Option.bind_some]
  rw [found, Option.bind_some, contentSchema?, one, Option.getD_some, List.findSome?_cons]
  dsimp only
  rw [if_pos plain, held]
  cases defined? g schema <;> rfl

theorem responseSchema?_restated {older newer : Value}
    (restated : Paired g (ResponseRestated g) older newer) :
    responseSchema? g newer = responseSchema? g older := by
  rcases restated with ⟨same, restated⟩
  unfold responseSchema?
  rw [same]
  by_cases plain : isDefined g older = true
  · rw [if_pos plain, if_pos plain]
    rcases restated plain with ⟨bare, ⟨none, noContent, noSchema⟩ | ⟨schema, holds, inside⟩⟩
    · rw [bare, noContent]
      dsimp only
      rw [heldSchema?, heldSchema?, none, noSchema]
    · have found := contentSchema?_of_inContent inside
      rcases inside with ⟨content, _, _, isContent, _⟩
      rw [isContent, Option.bind_some] at found
      have own : heldSchema? g older = defined? g schema := by
        rw [heldSchema?, holds, Option.bind_some]
      rw [bare, isContent]
      dsimp only
      rw [found, own]
  · rw [if_neg plain, if_neg plain]

theorem responseSchemas_restated {older newer : Entries}
    (restated : Alongside g (fun _ => Paired g (ResponseRestated g)) (older.get? "responses")
      (newer.get? "responses")) : responseSchemas g newer = responseSchemas g older := by
  refine foldl_congr_of_forall₂ restated (fun found a b alike => ?_) []
  dsimp only
  rw [alike.1, responseSchema?_restated alike.2]

theorem hasLongStatus_restated {older newer : Entries}
    (restated : Alongside g (fun _ => Paired g (ResponseRestated g)) (older.get? "responses")
      (newer.get? "responses")) : hasLongStatus g newer = hasLongStatus g older := by
  refine any_congr_of_forall₂ restated fun a b alike => ?_
  dsimp only
  rw [alike.1, responseSchema?_restated alike.2]

/-! ## Request bodies -/

/-- What a parameter gives for the body. -/
def bodySchema? (g : Graph) (parameter : Value) : Option Nat :=
  if isBodyParameter g parameter then heldSchema? g parameter else none

theorem bodySchema?_eq_none_iff {parameter : Value} :
    bodySchema? g parameter = none ↔ ¬ HasBody g parameter := by
  unfold bodySchema? HasBody heldSchema? isDefined
  split
  · next isBody =>
    cases g.field? parameter "schema" with
    | none => simp
    | some schema => simp [isBody]
  · next isBody => simp [isBody]

/-- The first parameter that gives something counts. -/
theorem findSome?_bodySchema? {parameter schema : Value} {before after : List Value}
    (first : ∀ other ∈ before, ¬ HasBody g other) (isBody : isBodyParameter g parameter = true)
    (holds : g.field? parameter "schema" = some schema) (usable : isDefined g schema = true) :
    (before ++ parameter :: after).findSome? (bodySchema? g) = defined? g schema := by
  have none : before.findSome? (bodySchema? g) = none := by
    rw [List.findSome?_eq_none_iff]
    intro other member
    exact bodySchema?_eq_none_iff.2 (first other member)
  have some : bodySchema? g parameter = defined? g schema := by
    rw [bodySchema?, if_pos isBody, heldSchema?, holds, Option.bind_some]
  rcases Option.isSome_iff_exists.1 usable with ⟨id, defined⟩
  rw [List.findSome?_append, none, Option.none_or, List.findSome?_cons, some, defined]

theorem parameters_of_items {operation : Entries} {list : Value} {items : List Value}
    (listed : operation.get? "parameters" = some list) (read : g.items? list = some items) :
    parameters g operation = .ok items := by
  unfold parameters
  rw [listed]
  unfold Graph.items? at read
  dsimp only
  split at read
  · next found =>
    cases read
    rw [found]
  · cases read

theorem requestSchema?_restated {older newer : Entries} (bare : older.get? "requestBody" = none)
    (restated : RequestRestated g older newer) :
    requestSchema? g newer = requestSchema? g older := by
  unfold requestSchema?
  rw [bare]
  cases restated with
  | moved listed items first isBody holds usable put plain content =>
    rw [put]
    dsimp only
    rw [if_pos plain, contentSchema?_of_inContent content, parameters_of_items listed items]
    exact congrArg Except.ok (findSome?_bodySchema? first isBody holds usable).symm
  | kept without same =>
    rw [without]
    dsimp only
    unfold parameters
    rw [same]

/-! ## Path items -/

/-- An entry that is no operation gives nothing. -/
theorem callsAt_of_other {path : String} {key : Scalar} {v : Value}
    (other : (isMethod key && isDefined g v) = false) : callsAt g path (key, v) = .ok [] := by
  unfold callsAt
  dsimp only
  split
  · rw [other]
    rfl
  · rfl

theorem callsAt_of_operation {path method : String} {v : Value} {operation : Entries}
    (plain : isDefined g v = true) (isMethod : isMethod (.str method) = true)
    (read : g.entries? v = some operation) :
    callsAt g path (.str method, v) = (do
      let request ← requestSchema? g operation
      Error.refuseLong (hasLongStatus g operation)
      return [⟨path, method, request, responseSchemas g operation⟩]) := by
  unfold callsAt
  dsimp only
  rw [read]
  dsimp only
  rw [if_pos (by rw [isMethod, plain, Bool.and_true])]

theorem callsAt_restated {path : String} {key : Scalar} {older newer : Value}
    (restated : isMethod key = true → Paired g (OperationRestated g) older newer) :
    callsAt g path (key, newer) = callsAt g path (key, older) := by
  by_cases method : isMethod key = true
  · rcases restated method with ⟨same, restated⟩
    by_cases plain : isDefined g older = true
    · rcases restated plain with ⟨old, new, read, readToo, bare, request, responses⟩
      cases key with
      | str method' =>
        rw [callsAt_of_operation plain method read,
          callsAt_of_operation (same.trans plain) method readToo, responseSchemas_restated responses,
          hasLongStatus_restated responses, requestSchema?_restated bare request]
      | _ => cases method
    · have neither : isDefined g older = false := Bool.eq_false_iff.2 plain
      rw [callsAt_of_other (by rw [same, neither, Bool.and_false]),
        callsAt_of_other (by rw [neither, Bool.and_false])]
  · have other : isMethod key = false := Bool.eq_false_iff.2 method
    rw [callsAt_of_other (by rw [other, Bool.false_and]),
      callsAt_of_other (by rw [other, Bool.false_and])]

theorem callsUnder_restated {path : String} {older newer : Nat}
    (restated : PathRestated g (.node older) (.node newer)) :
    callsUnder g path newer = callsUnder g path older := by
  have same := mapM_congr_of_forall₂ (callsAt g path) (callsAt g path) restated
    fun a b alike => by
      rcases a with ⟨key, old⟩
      rcases b with ⟨other, new⟩
      rcases alike with ⟨sameKey, alike⟩
      subst sameKey
      exact callsAt_restated alike
  rw [callsUnder_eq, callsUnder_eq]
  exact congrArg (· >>= fun calls => pure calls.flatten) same

theorem hasLongKey_alongside {R : Value → Value → Prop} {older newer : Option Value}
    (alongside : Alongside g (fun _ => Paired g R) older newer) :
    hasLongKey g newer = hasLongKey g older := by
  refine any_congr_of_forall₂ alongside fun a b alike => ?_
  dsimp only
  rw [alike.1, alike.2.1]

/-- The defined entries of sections whose values correspond. -/
theorem definedEntries_alongside {R : Value → Value → Prop} {older newer : Option Value}
    (alongside : Alongside g (fun _ => Paired g R) older newer) :
    List.Forall₂ (fun a b => b.1 = a.1 ∧ R (.node a.2) (.node b.2)) (definedEntries g older)
      (definedEntries g newer) := by
  unfold Alongside held at alongside
  unfold definedEntries
  generalize (older.bind g.entries?).getD [] = old at alongside
  generalize (newer.bind g.entries?).getD [] = new at alongside
  induction alongside with
  | nil => exact List.Forall₂.nil
  | @cons a b _ _ first _ ih =>
    rcases a with ⟨key, old⟩
    rcases b with ⟨other, new⟩
    rcases first with ⟨sameKey, same, related⟩
    dsimp only at sameKey same related
    subst sameKey
    rw [List.filterMap_cons, List.filterMap_cons]
    dsimp only
    cases defined : defined? g old with
    | none =>
      have neither : defined? g new = none := by
        rw [isDefined, isDefined, defined, Option.isSome_none] at same
        exact Option.not_isSome_iff_eq_none.1 (Bool.eq_false_iff.1 same)
      rw [neither]
      exact ih
    | some id =>
      have plain : isDefined g old = true := by rw [isDefined, defined, Option.isSome_some]
      rcases Option.isSome_iff_exists.1 (same.trans plain) with ⟨another, definedToo⟩
      rw [definedToo]
      have related := related plain
      rw [(defined?_eq_some defined).1, (defined?_eq_some definedToo).1] at related
      exact List.Forall₂.cons ⟨rfl, related⟩ ih

/-! ## Descriptions -/

theorem checkMapping_of_isMapping {document : Value} (isMapping : g.isMapping document = true) :
    checkMapping g document = .ok () := by
  rw [Graph.isMapping, Option.isSome_iff_exists] at isMapping
  rcases isMapping with ⟨entries, read⟩
  unfold Graph.entries? at read
  unfold checkMapping
  split at read
  · next found => rw [found]
  · cases read

section

variable {older newer : Value} (restated : Restated g older newer)
include restated

theorem calls_restated : calls g newer = calls g older := by
  have same := mapM_congr_of_forall₂ (fun entry => callsUnder g entry.1 entry.2)
    (fun entry => callsUnder g entry.1 entry.2) (definedEntries_alongside restated.paths)
    fun a b alike => by rw [alike.1, callsUnder_restated alike.2]
  unfold calls
  rw [hasLongKey_alongside restated.paths]
  exact congrArg (fun x => Error.refuseLong _ >>= fun _ => x >>= fun under => pure under.flatten)
    same

theorem componentProposals_restated : componentProposals g newer = componentProposals g older := by
  have named : ∀ part another, held g part = held g another →
      schemaProposals g part = schemaProposals g another := by
    intro part another same
    unfold schemaProposals definedEntries
    unfold held at same
    rw [same]
  have long : ∀ part another, held g part = held g another →
      hasLongKey g part = hasLongKey g another := by
    intro part another same
    unfold hasLongKey
    unfold held at same
    rw [same]
  unfold componentProposals
  rw [if_pos restated.third, restated.second, if_neg Bool.false_ne_true]
  rcases restated.components with ⟨absent, empty⟩ | ⟨components, sections, found, read, only, same⟩
  · rw [absent, named _ none empty, long _ none empty]
    rfl
  · have absent : ∀ key, key ≠ "schemas" → g.field? components key = none := by
      intro key other
      rw [Graph.field?, read, Option.bind_some, Entries.get?_eq_none_iff]
      intro entry member sameKey
      rw [only entry member] at sameKey
      injection sameKey with sameKey
      exact other sameKey.symm
    have nothing : contentProposals g none = [] := rfl
    have short : (["schemas", "responses", "requestBodies"].any fun part =>
        hasLongKey g (g.field? components part)) = hasLongKey g (g.field? components "schemas") := by
      rw [List.any_cons, List.any_cons, List.any_cons, absent "responses" (by decide),
        absent "requestBodies" (by decide)]
      exact Bool.or_false _
    have isMapping : g.isMapping components = true := by rw [Graph.isMapping, read]; rfl
    have field : g.field? components "schemas" = sections.get? "schemas" := by
      rw [Graph.field?, read, Option.bind_some]
    rw [found]
    dsimp only
    rw [if_pos isMapping, short, absent "responses" (by decide), absent "requestBodies" (by decide),
      nothing, List.append_nil, List.append_nil, field, named _ _ same, long _ _ same]

/-- Normalising makes no difference between the two shapes of a description. -/
theorem normalise_restated : normalise g newer = normalise g older := by
  unfold normalise
  rw [checkMapping_of_isMapping restated.isMapping.1,
    checkMapping_of_isMapping restated.isMapping.2, componentProposals_restated restated,
    calls_restated restated]

end

/-- A description in both shapes: a body parameter behind another one, a response with a schema and
one without, and a path that holds no item. -/
def bothShapes : Graph := ⟨#[
  .mapping [(.str "definitions", .node 1), (.str "paths", .node 2)],
  .mapping [(.str "pet", .node 10), (.str "Owner", .node 11)],
  .mapping [(.str "/pets", .node 3), (.str "/none", .str "later")],
  .mapping [(.str "summary", .str "Pets"), (.str "post", .node 4)],
  .mapping [(.str "parameters", .node 5), (.str "responses", .node 8)],
  .sequence [.node 6, .node 7],
  .mapping [(.str "in", .str "query")],
  .mapping [(.str "in", .str "body"), (.str "schema", .node 12)],
  .mapping [(.int 200, .node 9), (.str "default", .node 13)],
  .mapping [(.str "schema", .node 10)],
  .mapping [], .mapping [], .mapping [],
  .mapping [(.str "description", .str "Nothing")],
  .mapping [(.str "openapi", .str "3.0.0"), (.str "components", .node 15), (.str "paths", .node 16)],
  .mapping [(.str "schemas", .node 1)],
  .mapping [(.str "/pets", .node 17), (.str "/none", .str "later")],
  .mapping [(.str "summary", .str "Pets"), (.str "post", .node 18)],
  .mapping [(.str "requestBody", .node 19), (.str "responses", .node 22)],
  .mapping [(.str "content", .node 20)],
  .mapping [(.str "application/json", .node 21)],
  .mapping [(.str "schema", .node 12)],
  .mapping [(.int 200, .node 23), (.str "default", .node 13)],
  .mapping [(.str "content", .node 24)],
  .mapping [(.str "application/json", .node 25)],
  .mapping [(.str "schema", .node 10)]]⟩

theorem restated_bothShapes : Restated bothShapes (.node 0) (.node 14) := by
  have responses : Alongside bothShapes (fun _ => Paired bothShapes (ResponseRestated bothShapes))
      (some (.node 8)) (some (.node 22)) := by
    refine List.Forall₂.cons ⟨rfl, rfl, fun _ => ?_⟩ (List.Forall₂.cons ⟨rfl, rfl, fun _ => ?_⟩
      List.Forall₂.nil)
    · exact ⟨rfl, Or.inr ⟨.node 10, rfl, .node 24, .str "application/json", .node 25, rfl, rfl, rfl,
        rfl⟩⟩
    · exact ⟨rfl, Or.inl ⟨rfl, rfl, rfl⟩⟩
  have request : RequestRestated bothShapes
      [(.str "parameters", .node 5), (.str "responses", .node 8)]
      [(.str "requestBody", .node 19), (.str "responses", .node 22)] := by
    have items : bothShapes.items? (.node 5) = some ([.node 6] ++ .node 7 :: []) := rfl
    refine .moved rfl items (fun other member given => ?_) rfl rfl rfl rfl rfl
      ⟨.node 20, .str "application/json", .node 21, rfl, rfl, rfl, rfl⟩
    rw [List.mem_singleton] at member
    subst member
    exact absurd given.1 (by decide)
  have item : PathRestated bothShapes (.node 3) (.node 17) := by
    refine List.Forall₂.cons ⟨rfl, fun isMethod => ?_⟩ (List.Forall₂.cons ⟨rfl, fun _ => ⟨rfl,
      fun _ => ⟨_, _, rfl, rfl, rfl, request, responses⟩⟩⟩ List.Forall₂.nil)
    exact absurd isMethod (by decide)
  refine ⟨⟨rfl, rfl⟩, rfl, rfl, Or.inr ⟨.node 15, _, rfl, rfl, fun entry member => ?_, rfl⟩,
    List.Forall₂.cons ⟨rfl, rfl, fun _ => item⟩ (List.Forall₂.cons ⟨rfl, rfl, fun plain => ?_⟩
      List.Forall₂.nil)⟩
  · rw [List.mem_singleton] at member
    rw [member]
  · cases plain

/-- The two shapes of a description are normalised alike, and the body's schema gets its name. -/
theorem normalise_restated_bothShapes : ∃ normal,
    normalise bothShapes (.node 14) = .ok normal ∧ normalise bothShapes (.node 0) = .ok normal ∧
      normal.schemas = [("pet", 10), ("owner", 11), ("pets_requestbody", 12)] := by
  obtain ⟨normal, given, schemas⟩ : ∃ normal, normalise bothShapes (.node 0) = .ok normal ∧
      normal.schemas = [("pet", 10), ("owner", 11), ("pets_requestbody", 12)] :=
    exists_of_toOption_map (by decide +kernel)
  exact ⟨normal, (normalise_restated restated_bothShapes).trans given, given, schemas⟩

end Api

end Typewright
