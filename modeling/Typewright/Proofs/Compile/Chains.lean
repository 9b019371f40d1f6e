import Typewright.Proofs.Compile.Names
import Typewright.Proofs.Compile.Terminates

/-!
# Chains of references in definitions

A description may be compiled after its references have been resolved. The definitions then hold no
references but those to named schemas that copying has put there, and each of these leads to a
definition, which is no reference (`Compile.follow_inside`). Chains of references have at most one
step (`Compile.chainsEnd_of_linked`, `Compile.chainsEnd_of_holdsNoReference`).
-/

namespace Typewright.Compile

open Schema Standalone

section

variable {g : Graph} {definitions : List (String × Value)} (linked : Linked g definitions)
include linked

theorem lt_size_of_definition {i : String} {p : Nat} (member : (i, .node p) ∈ definitions) :
    p < g.size := by
  obtain ⟨place, _, _, isNode, found, _⟩ := linked.root member
  cases isNode
  exact Graph.lt_size_of_get? found

theorem lt_size_of_inside {i : String} {p id : Nat} (member : (i, .node p) ∈ definitions)
    (path : Within g p id) : id < g.size :=
  lt_size_of_within linked.closed (lt_size_of_definition linked member) path

/-- A definition is no reference. -/
theorem field?_definition {i : String} {p : Nat} (member : (i, .node p) ∈ definitions) :
    (wholeJob g definitions).graph.field? (.node p) refKey = none := by
  rw [field?_wholeJob g definitions (lt_size_of_definition linked member)]
  obtain ⟨place, entries, _, isNode, found, _, noRef, _⟩ := linked.root member
  cases isNode
  rw [Graph.field?, Graph.entries?_of_get? found]
  exact noRef

/-- A reference to the id of a definition resolves to it. -/
theorem resolve_reference_to {id : String} {v : Value} (member : (id, v) ∈ definitions) :
    resolve (wholeJob g definitions).graph (.node (wholeJob g definitions).root)
      (definitionsPointer ++ id) = .ok v := by
  obtain ⟨_, _, name, _, _, _, _, isName, rfl, _⟩ := linked.root member
  have resolved := resolve_definition (g := g) linked.ids member isName.lower_ne_empty
    fun c inId => isName.isPart_of_mem_lower inId
  rwa [(addRoot_spec g definitions).1] at resolved

/-- A container of a definition is no reference, or it is one to a definition. -/
theorem cases_of_inside {i : String} {p id : Nat} (member : (i, .node p) ∈ definitions)
    (path : Within g p id) :
    (wholeJob g definitions).graph.field? (.node id) refKey = none ∨
      ∃ j q, (j, .node q) ∈ definitions ∧ (wholeJob g definitions).graph.field? (.node id) refKey =
        some (.str (definitionsPointer ++ j)) := by
  rw [field?_wholeJob g definitions (lt_size_of_inside linked member path)]
  cases held : g.field? (.node id) refKey with
  | none => exact Or.inl rfl
  | some ref =>
    obtain ⟨entries, read, inEntries⟩ := Option.bind_eq_some_iff.1 held
    obtain ⟨j, v, rfl, target⟩ :=
      linked.reference member path (Graph.get?_of_entries? read) inEntries
    obtain ⟨q, _, _, rfl, _⟩ := linked.root target
    exact Or.inr ⟨j, q, target, rfl⟩

/-- What is followed from a container of a definition ends there, or at the root of a definition. -/
theorem follow_inside {i : String} {p id : Nat} (member : (i, .node p) ∈ definitions)
    (path : Within g p id) :
    (g.field? (.node id) refKey = none ∧ follow (wholeJob g definitions).graph
      (.node (wholeJob g definitions).root) (.node id) = .ok (.node id, false)) ∨
    ∃ j q, (j, .node q) ∈ definitions ∧
      g.field? (.node id) refKey = some (.str (definitionsPointer ++ j)) ∧
      follow (wholeJob g definitions).graph (.node (wholeJob g definitions).root) (.node id) =
        .ok (.node q, true) := by
  rw [← field?_wholeJob g definitions (lt_size_of_inside linked member path)]
  rcases cases_of_inside linked member path with none | ⟨j, q, target, held⟩
  · exact Or.inl ⟨none, follow_of_no_reference none⟩
  · exact Or.inr ⟨j, q, target, held, follow_of_reference held
      (resolve_reference_to linked target) (field?_definition linked target)⟩

/-- What a reached reference leads to is a definition. -/
theorem definition_of_hops {v w : Value} (reached : Reached (wholeJob g definitions) v)
    (hops : Hops (wholeJob g definitions).graph (.node (wholeJob g definitions).root) v w) :
    ∃ id, (id, w) ∈ definitions := by
  obtain ⟨ref, text, held, read, resolved⟩ := hops
  obtain ⟨_, _, asDefinitions, asProperties, _⟩ := addRoot_spec g definitions
  -- the mappings with the definitions hold containers, and no text
  have notHolder : ∀ {holder : Nat}, (wholeJob g definitions).graph.get? holder =
      some (.mapping (definitionEntries definitions)) → v ≠ .node holder := by
    intro holder found isHolder
    rw [isHolder, Graph.field?, Graph.entries?_of_get? found] at held
    obtain ⟨definition, member, entry⟩ := List.mem_map.1 (Entries.mem_of_get? held)
    obtain ⟨_, _, _, isNode, _⟩ := linked.root member
    injection entry with _ value
    rw [← value, isNode] at read
    cases read
  cases v with
  | scalar s => cases held
  | node place =>
    have inside : ∀ definition ∈ definitions, g.Inside definition.2 := by
      intro definition member id isNode
      obtain ⟨place, _, _, isPlace, found, _⟩ := linked.root member
      rw [isPlace] at isNode
      cases isNode
      exact Graph.lt_size_of_get? found
    rcases cases_of_reached_whole linked.closed inside reached with
      rfl | rfl | rfl | ⟨⟨i, _⟩, member, c, rfl, path⟩
    · cases (field?_root g definitions).symm.trans held
    · exact absurd rfl (notHolder asDefinitions)
    · exact absurd rfl (notHolder asProperties)
    · rcases cases_of_inside linked member path with none | ⟨j, q, target, reference⟩
      · cases none.symm.trans held
      · rw [reference] at held
        cases held
        cases read
        rw [resolve_reference_to linked target] at resolved
        cases resolved
        exact ⟨j, target⟩

/-- Chains of references in definitions that refer to each other alone end. -/
theorem chainsEnd_of_linked :
    ChainsEnd (wholeJob g definitions).graph (.node (wholeJob g definitions).root) := by
  intro endless
  obtain ⟨chain, hops⟩ := endless
  obtain ⟨_, _, _, _, resolved⟩ := hops 0
  obtain ⟨id, member⟩ := definition_of_hops linked (.of_resolve resolved) (hops 1)
  obtain ⟨place, _, _, isNode, _⟩ := linked.root member
  obtain ⟨_, _, held, _⟩ := hops 2
  rw [isNode] at member held
  rw [field?_definition linked member] at held
  cases held

end

/-- Chains of references in the definitions of a description without references end. -/
theorem chainsEnd_of_holdsNoReference {g : Graph} {document : Value} {normal : Api.Normal}
    (given : Api.normalise g document = .ok normal) (wellFormed : g.WellFormed)
    (holdsNone : HoldsNoReference g) :
    ChainsEnd (wholeJob normal.graph normal.definitions).graph
      (.node (wholeJob normal.graph normal.definitions).root) := by
  have linked := linked_definitions (fun id => Api.defined_of_isNamed given) wellFormed
    (Api.consistent_naming given) holdsNone (List.mem_singleton_self _)
  rw [← (definitions_eq given).1, ← (definitions_eq given).2] at linked
  exact chainsEnd_of_linked linked

end Typewright.Compile
