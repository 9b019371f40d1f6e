import Typewright.Proofs.Compile.Parts

/-!
# Rendered positions

The values that writing out a schema renders, in order (`Job.positions`). Which of its keywords count
is for the first of them to say that fixes a type: a constant has no positions, and properties are
rendered as parts of an object type but not beside a list of items. Every position is one of the
values that could be asked for (`Compile.asked_of_mem_positions`).
-/

namespace Typewright.Compile

namespace Job

variable (job : Job) (entries : Entries)

/-- What an index signature renders. -/
def indexPositions : List Value :=
  Schema.patternChildren job.graph entries ++ Schema.additionalChildren job.graph entries

/-- What an object type renders. -/
def objectPositions : List Value :=
  Schema.propertyChildren job.graph entries ++ job.indexPositions entries

/-- What an array or tuple type renders. -/
def arrayPositions : List Value :=
  let items := (entries.get? "items").getD .null
  match job.graph.items? items with
  | some members =>
    match entries.get? "additionalItems" with
    | some (.scalar (.bool false)) => members
    | additional => members ++ [additional.getD (.bool true)]
  | none => [items]

/-- What the type of a schema by one word of its `type` renders. -/
def typedPositions (type : Value) : List Value :=
  match type with
  | .node _ => []
  | .scalar word =>
    match (match word with
      | .str s => Primitive.ofSchemaType? s
      | _ => none) with
    | some _ => []
    | none =>
      if word = .str "array" then job.arrayPositions entries
      else if word = .str "object" ∨ entries.has "properties" ∨
          entries.has "additionalProperties" then
        job.objectPositions entries
      else if entries.has "items" then job.arrayPositions entries
      else []

/-- What writing out a schema renders. -/
def positions : List Value :=
  if let some _ := entries.get? "tsType" then []
  else if let some _ := entries.get? "const" then []
  else if let some _ := job.listUnder? entries "enum" then []
  else if let some members := job.listUnder? entries "allOf" then
    if entries.has "properties" then members ++ job.objectPositions entries else members
  else if let some members := job.listUnder? entries "anyOf" then members
  else if let some members := job.listUnder? entries "oneOf" then members
  else
    let type := (entries.get? "type").getD .null
    match job.graph.items? type with
    | some words => words.flatMap (job.typedPositions entries)
    | none => job.typedPositions entries type

end Job

section

variable {job : Job} {entries : Entries} {v : Value}

theorem mem_indexPositions_of_pattern {patterns : Entries}
    (given : entriesUnder job.graph entries "patternProperties" = .ok patterns)
    (member : v ∈ patterns.map (·.2)) : v ∈ job.indexPositions entries := by
  have read := mapping_of_mem_entriesUnder given member
  rw [Job.indexPositions, Schema.patternChildren, read]
  exact List.mem_append_left _ member

theorem mem_indexPositions_of_additional
    (held : entries.get? "additionalProperties" = some v)
    (isMapping : job.graph.isMapping v = true) : v ∈ job.indexPositions entries :=
  List.mem_append_right _ (Schema.mem_additionalChildren_iff.2 ⟨held, isMapping⟩)

theorem mem_objectPositions_of_property {declared : Entries}
    (given : entriesUnder job.graph entries "properties" = .ok declared)
    (member : v ∈ declared.map (·.2)) : v ∈ job.objectPositions entries :=
  List.mem_append_left _ (Schema.mem_propertyChildren_iff.2
    ⟨declared, mapping_of_mem_entriesUnder given member, member⟩)

/-- A schema that is declared as an interface has no keyword that fixes another type. -/
theorem get?_eq_none_of_isInterface (interface : isInterface entries = true) (key : String)
    (member : key ∈ ["$ref", "enum", "const", "allOf", "anyOf", "oneOf", "tsType"]) :
    entries.get? key = none := by
  unfold isInterface at interface
  split at interface
  · cases interface
  · next others =>
    rw [Bool.not_eq_true, List.any_eq_false] at others
    exact Entries.get?_eq_none_iff_not_has.2 (Bool.eq_false_iff.2 (others key member))

theorem listUnder?_of_isInterface (interface : isInterface entries = true) (key : String)
    (member : key ∈ ["$ref", "enum", "const", "allOf", "anyOf", "oneOf", "tsType"]) :
    job.listUnder? entries key = none := by
  rw [Job.listUnder?, get?_eq_none_of_isInterface interface key member]
  rfl

/-- A schema that is declared as an interface says that it is of objects, or has no type but a
keyword for objects. -/
theorem type_of_isInterface (interface : isInterface entries = true) :
    entries.get? "type" = some (.str "object") ∨ (entries.get? "type").getD .null = .null ∧
      (entries.has "properties" = true ∨ entries.has "additionalProperties" = true) := by
  unfold isInterface at interface
  split at interface
  · cases interface
  · split at interface
    · next held => exact Or.inl (held.trans (by rw [beq_iff_eq.1 interface]; rfl))
    · next held => exact Or.inr ⟨by rw [held]; rfl, Bool.or_eq_true_iff.1 interface⟩
    · next held => exact Or.inr ⟨by rw [held]; rfl, Bool.or_eq_true_iff.1 interface⟩
    · cases interface

theorem typedPositions_of_not_primitive {word : Scalar}
    (other : ∀ s, word = .str s → Primitive.ofSchemaType? s = none) :
    job.typedPositions entries (.scalar word) =
      if word = .str "array" then job.arrayPositions entries
      else if word = .str "object" ∨ entries.has "properties" ∨
          entries.has "additionalProperties" then
        job.objectPositions entries
      else if entries.has "items" then job.arrayPositions entries
      else [] := by
  unfold Job.typedPositions
  cases word with
  | str s =>
    dsimp only
    rw [other s rfl]
  | _ => rfl

theorem typedPositions_null
    (isObject : entries.has "properties" = true ∨ entries.has "additionalProperties" = true) :
    job.typedPositions entries .null = job.objectPositions entries := by
  have chosen : Scalar.null = .str "object" ∨ entries.has "properties" = true ∨
      entries.has "additionalProperties" = true := Or.inr isObject
  rw [Value.null, typedPositions_of_not_primitive (by simp), if_neg (by decide), if_pos chosen]

/-- Writing out a schema that could be declared as an interface renders its object type. -/
theorem positions_of_isInterface (interface : isInterface entries = true) :
    job.positions entries = job.objectPositions entries := by
  have missing := get?_eq_none_of_isInterface interface
  have unlisted := @listUnder?_of_isInterface job _ interface
  unfold Job.positions
  simp only [missing "tsType" (by decide), missing "const" (by decide),
    unlisted "enum" (by decide), unlisted "allOf" (by decide), unlisted "anyOf" (by decide),
    unlisted "oneOf" (by decide)]
  rcases type_of_isInterface interface with object | ⟨untyped, isObject⟩
  · rw [object]
    rfl
  · rw [untyped]
    exact typedPositions_null isObject

theorem asked_of_mem_objectPositions (member : v ∈ job.objectPositions entries) :
    Asked job.graph entries v := by
  rcases List.mem_append.1 member with property | index
  · exact Or.inl (Schema.mem_children_iff.2 (Or.inl (Schema.mem_propertyChildren_iff.1 property)))
  · rcases List.mem_append.1 index with pattern | additional
    · exact Or.inr (Or.inl (List.mem_append_left _ pattern))
    · exact Or.inl (Schema.mem_children_iff.2 (Or.inr (Or.inr (Or.inr (Or.inl
        (Schema.mem_additionalChildren_iff.1 additional))))))

theorem asked_of_mem_arrayPositions (member : v ∈ job.arrayPositions entries) :
    Asked job.graph entries v := by
  unfold Job.arrayPositions at member
  dsimp only at member
  split at member
  · next members several =>
    have listed : v ∈ members → Asked job.graph entries v := asked_of_items several
    have additional := asked_of_additionalItems several
    split at member
    · exact listed member
    · rcases List.mem_append.1 member with inList | last
      · exact listed inList
      · rw [List.mem_singleton.1 last]
        exact additional
  · next single =>
    rw [List.mem_singleton.1 member]
    exact asked_of_item single

theorem asked_of_mem_typedPositions {type : Value}
    (member : v ∈ job.typedPositions entries type) : Asked job.graph entries v := by
  unfold Job.typedPositions at member
  split at member
  · cases member
  · split at member
    · cases member
    · split at member
      · exact asked_of_mem_arrayPositions member
      · split at member
        · exact asked_of_mem_objectPositions member
        · split at member
          · exact asked_of_mem_arrayPositions member
          · cases member

/-- What is rendered can be asked for. -/
theorem asked_of_mem_positions (member : v ∈ job.positions entries) :
    Asked job.graph entries v := by
  unfold Job.positions at member
  split at member
  · cases member
  split at member
  · cases member
  split at member
  · cases member
  split at member
  · next members given =>
    have composed : v ∈ members → Asked job.graph entries v := asked_of_members (by decide) given
    split at member
    · exact (List.mem_append.1 member).elim composed asked_of_mem_objectPositions
    · exact composed member
  split at member
  · next members given => exact asked_of_members (by decide) given member
  split at member
  · next members given => exact asked_of_members (by decide) given member
  dsimp only at member
  split at member
  · obtain ⟨word, _, inWord⟩ := List.mem_flatMap.1 member
    exact asked_of_mem_typedPositions inWord
  · exact asked_of_mem_typedPositions member

end

end Typewright.Compile
