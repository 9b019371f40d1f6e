import Typewright.Proofs.Compile.Recursion

/-!
# What a compilation relies on

A compilation looks at the kind of most of what it reads, and renders what is of another kind as
unknown (`Compile.expression_of_not_mapping`). The exceptions are what an object type is made of,
the words of a `type`, the choices of a constant enumeration, and integers with too many digits for
a text (`Job.Reads`). From a schema it comes to those that it renders (`Job.Compiles`), and it
stumbles on a schema if it comes to one that is not clean (`Job.Stumbles`).
-/

namespace Typewright.Compile

namespace Job

section

variable (job : Job) (entries : Entries)

/-- What an object type is made of: keys that are required, and entries under texts. -/
structure ReadsObject : Prop where
  required : ∃ keys, requiredKeys job.graph entries = .ok keys
  properties : ∃ declared, entriesUnder job.graph entries "properties" = .ok declared ∧
    ∀ entry ∈ declared, ∃ text, entry.1 = .str text
  patterns : ∃ patterns, entriesUnder job.graph entries "patternProperties" = .ok patterns

/-- What the type of a schema by one word of its `type` is made of. -/
def ReadsTyped (type : Value) : Prop :=
  match type with
  | .node _ => False
  | .scalar word =>
    match (match word with
      | .str s => Primitive.ofSchemaType? s
      | _ => none) with
    | some _ => True
    | none =>
      if word = .str "array" then True
      else if word = .str "object" ∨ entries.has "properties" ∨
          entries.has "additionalProperties" then
        job.ReadsObject entries
      else True

/-- What writing out a schema is made of. -/
def ReadsWritten : Prop :=
  if let some v := entries.get? "tsType" then Display.hasLongInteger job.graph v = false
  else if let some v := entries.get? "const" then v.isLongInteger = false
  else if let some values := job.listUnder? entries "enum" then
    values.any Value.isLongInteger = false
  else if let some _ := job.listUnder? entries "allOf" then
    if entries.has "properties" then job.ReadsObject entries else True
  else if let some _ := job.listUnder? entries "anyOf" then True
  else if let some _ := job.listUnder? entries "oneOf" then True
  else
    let type := (entries.get? "type").getD .null
    match job.graph.items? type with
    | some words => ∀ word ∈ words, job.ReadsTyped entries word
    | none => job.ReadsTyped entries type

/-- The names and the choices of a schema that is a constant enumeration if it is declared. -/
def choices? : Option (List Value × Value) :=
  match job.options.constEnums, entries.get? "enum", job.listUnder? entries "tsEnumNames" with
  | true, some choices, some names => some (names, choices)
  | _, _, _ => none

/-- What the members of a constant enumeration are made of. -/
def ReadsMembers (names : List Value) (choices : Value) : Prop :=
  ∃ values, elements job.graph choices = .ok values ∧ job.hasLongMember names values = false

end

variable (job : Job)

/-- The names and the choices of a schema that is declared as a constant enumeration. -/
def declaredChoices? (schema : Nat) (entries : Entries) : Option (List Value × Value) :=
  if job.isTitled schema then job.choices? entries else none

/-- What compiling a schema with the given entries is made of. -/
def ReadsEntries (schema : Nat) (entries : Entries) : Prop :=
  match job.declaredChoices? schema entries with
  | some (names, choices) => job.ReadsMembers names choices
  | none => job.ReadsWritten entries

/-- What compiling a schema is made of. -/
def Reads (schema : Nat) : Prop :=
  ∀ entries, job.graph.get? schema = some (.mapping entries) → job.ReadsEntries schema entries

/-- What compiling a schema renders. -/
def asked (schema : Nat) : List Value :=
  match job.graph.get? schema with
  | some (.mapping entries) =>
    if (job.declaredChoices? schema entries).isSome then []
    else job.positions entries
  | _ => []

/-- Compiling a schema comes to another. -/
def Compiles (a b : Nat) : Prop :=
  b ∈ (job.asked a).filterMap job.target?

/-- The references that a value begins with lead somewhere. -/
def Follows (v : Value) : Prop :=
  ∃ target, follow job.graph (.node job.root) v = .ok target

/-- A schema that compiling stumbles on nothing in. -/
structure Clean (schema : Nat) : Prop where
  reads : job.Reads schema
  follows : ∀ v ∈ job.asked schema, job.Follows v

/-- A schema from which compiling comes to one that is not clean. -/
def Stumbles (schema : Nat) : Prop :=
  ∃ last, Relation.ReflTransGen job.Compiles schema last ∧ ¬ job.Clean last

/-- A value that compiling stumbles on, or on something that it comes to from there. -/
def Trips (v : Value) : Prop :=
  ¬ job.Follows v ∨ ∃ schema, job.target? v = some schema ∧ job.Stumbles schema

variable {job}

theorem follows_scalar (s : Scalar) : job.Follows (.scalar s) :=
  ⟨_, follow_of_no_reference rfl⟩

theorem target?_scalar (s : Scalar) : job.target? (.scalar s) = none := by
  rw [target?, follow_of_no_reference rfl]

/-- Whatever a schema asks for that compiling stumbles on makes it stumble. -/
theorem stumbles_of_trips {schema : Nat} {v : Value} (asked : v ∈ job.asked schema)
    (trips : job.Trips v) : job.Stumbles schema := by
  rcases trips with lost | ⟨next, target, last, path, unclean⟩
  · exact ⟨schema, .refl, fun clean => lost (clean.follows v asked)⟩
  · exact ⟨last, .head (List.mem_filterMap.2 ⟨v, asked, target⟩) path, unclean⟩

theorem stumbles_of_not_clean {schema : Nat} (unclean : ¬ job.Clean schema) :
    job.Stumbles schema :=
  ⟨schema, .refl, unclean⟩

/-- What is no mapping asks for nothing. -/
theorem asked_of_not_mapping {schema : Nat}
    (other : ∀ entries, job.graph.get? schema ≠ some (.mapping entries)) :
    job.asked schema = [] := by
  rw [asked]
  split
  · next entries found => exact absurd found (other entries)
  · rfl

theorem clean_of_not_mapping {schema : Nat}
    (other : ∀ entries, job.graph.get? schema ≠ some (.mapping entries)) : job.Clean schema where
  reads entries found := absurd found (other entries)
  follows v member := by
    rw [asked_of_not_mapping other] at member
    cases member

/-- An empty mapping asks for nothing. -/
theorem clean_of_empty {schema : Nat} (found : job.graph.get? schema = some (.mapping [])) :
    job.asked schema = [] ∧ job.Clean schema := by
  have bare : job.isTitled schema = false := by
    rw [isTitled, Graph.field?_of_get? found]
    rfl
  have nothing : job.asked schema = [] := by
    rw [asked, found]
    simp [declaredChoices?, bare, positions, listUnder?, typedPositions, Value.null, Entries.has,
      Graph.items?, Graph.node?, Entries.get?_nil]
  refine ⟨nothing, fun entries other => ?_, fun v member => ?_⟩
  · rw [found] at other
    cases other
    simp [ReadsEntries, declaredChoices?, bare, ReadsWritten, listUnder?, ReadsTyped, Value.null,
      Entries.has, Graph.items?, Graph.node?, Entries.get?_nil]
  · rw [nothing] at member
    cases member

section

variable {schema : Nat} {entries : Entries}

theorem reads_iff (found : job.graph.get? schema = some (.mapping entries)) :
    job.Reads schema ↔ job.ReadsEntries schema entries := by
  refine ⟨fun reads => reads entries found, fun reads other same => ?_⟩
  rw [found] at same
  cases same
  exact reads

/-- A schema that is not declared as a constant enumeration is written out. -/
theorem reads_of_no_choices (found : job.graph.get? schema = some (.mapping entries))
    (none : job.declaredChoices? schema entries = Option.none) :
    (job.Reads schema ↔ job.ReadsWritten entries) ∧ job.asked schema = job.positions entries := by
  rw [reads_iff found, ReadsEntries, asked, found]
  simp [none]

theorem mem_positions_of_asked (found : job.graph.get? schema = some (.mapping entries)) {v : Value}
    (asked : v ∈ job.asked schema) : v ∈ job.positions entries := by
  rw [Job.asked, found] at asked
  dsimp only at asked
  split at asked
  · cases asked
  · exact asked

theorem choices?_of_isInterface (interface : isInterface entries = true) :
    job.choices? entries = none := by
  rw [choices?, get?_eq_none_of_isInterface interface "enum" (by decide)]
  split <;> first | rfl | contradiction

/-- Writing out a schema that could be declared as an interface takes what its object type takes. -/
theorem readsWritten_of_isInterface (interface : isInterface entries = true) :
    job.ReadsWritten entries ↔ job.ReadsObject entries := by
  have missing := get?_eq_none_of_isInterface interface
  have unlisted := @listUnder?_of_isInterface job _ interface
  unfold ReadsWritten
  simp only [missing "tsType" (by decide), missing "const" (by decide),
    unlisted "enum" (by decide), unlisted "allOf" (by decide), unlisted "anyOf" (by decide),
    unlisted "oneOf" (by decide)]
  rcases type_of_isInterface interface with object | ⟨untyped, isObject⟩
  · rw [object]
    exact Iff.rfl
  · have chosen : Scalar.null = .str "object" ∨ entries.has "properties" = true ∨
        entries.has "additionalProperties" = true := Or.inr isObject
    rw [untyped]
    change (if Scalar.null = .str "array" then True else if _ then _ else True) ↔ _
    rw [if_neg (by decide), if_pos chosen]

end

end Job

/-- What is no mapping is rendered as unknown where a schema is expected, but for the value that is
false. -/
theorem expression_of_not_mapping {job : Job} {v : Value} (other : job.graph.isMapping v = false)
    (proper : v ≠ .bool false) (depth : Nat) (around : List Nat) (named : Bool) (draft : Draft) :
    (job.expression (depth + 1) around named v).run draft = .ok (.unknown, draft) := by
  have unread : job.graph.entries? v = none := by
    rw [Graph.isMapping, Option.isSome_eq_false_iff] at other
    exact Option.isNone_iff_eq_none.1 other
  have plain : job.graph.field? v Schema.refKey = none := by rw [Graph.field?, unread]; rfl
  change (job.step (job.expression depth) around named v).run draft = _
  unfold Job.step
  rw [follow_of_no_reference plain, lift_ok_bind]
  dsimp only
  split
  · rfl
  · exact absurd rfl proper
  · next read =>
    rw [unread] at read
    cases read
  · rfl

end Typewright.Compile
