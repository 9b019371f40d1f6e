import Typewright.Proofs.Document.Entries
import Typewright.Proofs.Document.Search
import Typewright.Schema.Structure

/-!
# Structural dependencies

The structural dependencies of a schema are what it leads to through defined structural children
(`Schema.mem_dependencies_iff`). They depend on the containers of the document alone: in a graph
that extends a well formed one they are the same (`Schema.mem_dependencies_extends`).
-/

namespace Typewright

/-! ## Values inside a graph -/

namespace Graph

/-- A value whose container, if it is one, is in the graph. -/
def Inside (g : Graph) (v : Value) : Prop :=
  ∀ id, v.node? = some id → id < g.size

theorem exists_get?_of_lt {g : Graph} {id : Nat} (bound : id < g.size) :
    ∃ node, g.get? id = some node :=
  ⟨g.nodes[id], Array.getElem?_eq_getElem bound⟩

theorem mem_successors_of_get? {g : Graph} {id child : Nat} {node : Node}
    (found : g.get? id = some node) (held : .node child ∈ node.values) :
    child ∈ g.successors id :=
  mem_successors_iff.2 ⟨node, found, Node.mem_successors_iff.2 held⟩

/-- What a container of a well formed graph holds is inside the graph. -/
theorem WellFormed.inside_of_mem {g : Graph} (wellFormed : g.WellFormed) {id : Nat} {node : Node}
    {v : Value} (found : g.get? id = some node) (held : v ∈ node.values) : g.Inside v := by
  intro child same
  cases v with
  | scalar s => cases same
  | node other =>
    cases same
    exact wellFormed.inside (mem_successors_of_get? found held)

section

variable {g larger : Graph} (keeps : g.Extends larger)
include keeps

theorem Extends.get?_of_lt {id : Nat} (bound : id < g.size) : larger.get? id = g.get? id := by
  obtain ⟨node, found⟩ := exists_get?_of_lt bound
  rw [found, keeps.found found]

theorem Extends.node?_of_inside {v : Value} (inside : g.Inside v) : larger.node? v = g.node? v := by
  cases v with
  | scalar s => rfl
  | node id => exact keeps.get?_of_lt (inside id rfl)

theorem Extends.entries?_of_inside {v : Value} (inside : g.Inside v) :
    larger.entries? v = g.entries? v := by
  rw [Graph.entries?, Graph.entries?, keeps.node?_of_inside inside]

theorem Extends.items?_of_inside {v : Value} (inside : g.Inside v) :
    larger.items? v = g.items? v := by
  rw [Graph.items?, Graph.items?, keeps.node?_of_inside inside]

theorem Extends.isMapping_of_inside {v : Value} (inside : g.Inside v) :
    larger.isMapping v = g.isMapping v := by
  rw [Graph.isMapping, Graph.isMapping, keeps.entries?_of_inside inside]

theorem Extends.successors_of_lt {id : Nat} (bound : id < g.size) :
    larger.successors id = g.successors id := by
  rw [Graph.successors, Graph.successors, keeps.get?_of_lt bound]

end

theorem get?_of_items? {g : Graph} {id : Nat} {items : List Value}
    (found : g.items? (.node id) = some items) : g.get? id = some (.sequence items) := by
  rw [items?, node?] at found
  split at found
  · next read => rw [read, ← Option.some.inj found]
  · cases found

end Graph

namespace Entries

theorem mem_values_of_get? {entries : Entries} {key : String} {v : Value}
    (found : entries.get? key = some v) : v ∈ entries.map (·.2) :=
  List.mem_map.2 ⟨_, mem_of_get? found, rfl⟩

end Entries

/-! ## Structural children -/

namespace Schema

theorem defined?_eq_some {g : Graph} {v : Value} {id : Nat} (found : defined? g v = some id) :
    v = .node id ∧ ∃ entries, g.get? id = some (.mapping entries) ∧ entries.has refKey = false := by
  unfold defined? at found
  split at found
  · next other entries read =>
    split at found
    · cases found
    · next plain =>
      cases found
      exact ⟨rfl, entries, Graph.get?_of_entries? read, by simpa using plain⟩
  · cases found

theorem defined?_of_get? {g : Graph} {id : Nat} {entries : Entries}
    (found : g.get? id = some (.mapping entries)) (plain : entries.has refKey = false) :
    defined? g (.node id) = some id := by
  simp [defined?, Graph.entries?_of_get? found, plain]

section

variable {g : Graph} {entries : Entries} {v : Value}

theorem mem_propertyChildren_iff : v ∈ propertyChildren g entries ↔ ∃ properties,
    (entries.get? "properties").bind g.entries? = some properties ∧ v ∈ properties.map (·.2) := by
  rw [propertyChildren]
  cases (entries.get? "properties").bind g.entries? <;> simp

theorem mem_itemChildren_iff : v ∈ itemChildren g entries ↔
    (∃ items, (entries.get? "items").bind g.items? = some items ∧ v ∈ items) ∨
      (entries.get? "items" = some v ∧ g.items? v = none) := by
  rw [itemChildren]
  cases entries.get? "items" with
  | none => simp
  | some holder =>
    cases read : g.items? holder with
    | none =>
      have single : v = holder ↔ holder = v ∧ g.items? v = none :=
        ⟨fun same => ⟨same.symm, same ▸ read⟩, fun both => both.1.symm⟩
      simpa [read] using single
    | some items =>
      have several : holder = v → g.items? v = none → v ∈ items := by
        rintro rfl single
        rw [read] at single
        cases single
      simpa [read] using several

theorem mem_additionalChildren_iff : v ∈ additionalChildren g entries ↔
    entries.get? "additionalProperties" = some v ∧ g.isMapping v = true := by
  rw [additionalChildren]
  cases entries.get? "additionalProperties" with
  | none => simp
  | some holder =>
    by_cases same : v = holder
    · cases isMapping : g.isMapping holder <;> simp [same, isMapping]
    · cases isMapping : g.isMapping holder <;> simp [same, Ne.symm same]

theorem mem_memberChildren_iff {key : String} : v ∈ memberChildren g entries key ↔
    ∃ members, (entries.get? key).bind g.items? = some members ∧ v ∈ members := by
  rw [memberChildren]
  cases (entries.get? key).bind g.items? <;> simp

/-- The keywords that hold structural children: the properties, the items, one by one or one for
all, the schema for further properties, and the members of compositions. -/
theorem mem_children_iff : v ∈ children g entries ↔
    (∃ properties, (entries.get? "properties").bind g.entries? = some properties ∧
      v ∈ properties.map (·.2)) ∨
    (∃ items, (entries.get? "items").bind g.items? = some items ∧ v ∈ items) ∨
    (entries.get? "items" = some v ∧ g.items? v = none) ∨
    (entries.get? "additionalProperties" = some v ∧ g.isMapping v = true) ∨
    ∃ key ∈ compositionKeys, ∃ members, (entries.get? key).bind g.items? = some members ∧
      v ∈ members := by
  simp only [children, List.mem_append, List.mem_flatMap, mem_propertyChildren_iff,
    mem_itemChildren_iff, mem_additionalChildren_iff, mem_memberChildren_iff, or_assoc]

/-- Structural children are inside the graph. -/
theorem inside_of_mem_children (wellFormed : g.WellFormed) {id : Nat}
    (found : g.get? id = some (.mapping entries)) (child : v ∈ children g entries) :
    g.Inside v := by
  -- a child is held by the schema itself or by a container that the schema holds
  have own : ∀ key, entries.get? key = some v → g.Inside v := fun key held =>
    wellFormed.inside_of_mem found (Entries.mem_values_of_get? held)
  have listed : ∀ key items, (entries.get? key).bind g.items? = some items → v ∈ items →
      g.Inside v := by
    intro key items read member
    obtain ⟨holder, _, read⟩ := Option.bind_eq_some_iff.1 read
    cases holder with
    | scalar s => cases read
    | node other => exact wellFormed.inside_of_mem (Graph.get?_of_items? read) member
  rcases mem_children_iff.1 child with ⟨properties, read, member⟩ | ⟨items, read, member⟩ |
    ⟨held, _⟩ | ⟨held, _⟩ | ⟨key, _, members, read, member⟩
  · obtain ⟨holder, _, read⟩ := Option.bind_eq_some_iff.1 read
    cases holder with
    | scalar s => cases read
    | node other => exact wellFormed.inside_of_mem (Graph.get?_of_entries? read) member
  · exact listed _ _ read member
  · exact own _ held
  · exact own _ held
  · exact listed _ _ read member

end

theorem definedChildren_of_get? {g : Graph} {id : Nat} {entries : Entries}
    (found : g.get? id = some (.mapping entries)) :
    definedChildren g id = (children g entries).filterMap (defined? g) := by
  rw [definedChildren, Graph.entries?_of_get? found]
  rfl

theorem lt_size_of_mem_definedChildren {g : Graph} {id child : Nat}
    (member : child ∈ definedChildren g id) : child < g.size := by
  rw [definedChildren] at member
  cases read : g.entries? (.node id) with
  | none =>
    rw [read] at member
    cases member
  | some entries =>
    rw [read] at member
    obtain ⟨v, _, found⟩ := List.mem_filterMap.1 member
    obtain ⟨_, _, held, _⟩ := defined?_eq_some found
    exact Graph.lt_size_of_get? held

theorem bounded_definedChildren (g : Graph) (start : Nat) :
    Search.Bounded (definedChildren g) g.size start :=
  fun _ _ _ leads => lt_size_of_mem_definedChildren leads

/-- The structural dependencies of a schema are what it leads to through defined structural
children. -/
theorem mem_dependencies_iff {g : Graph} {root id : Nat}
    (defined : defined? g (.node root) = some root) :
    id ∈ dependencies g (.node root) ↔
      Relation.ReflTransGen (Search.Leads (definedChildren g)) root id := by
  rw [dependencies, defined]
  exact Search.mem_order_iff (bounded_definedChildren g root)

/-! ## In a larger graph -/

section

variable {g larger : Graph} (keeps : g.Extends larger)
include keeps

theorem defined?_extends {v : Value} (inside : g.Inside v) : defined? larger v = defined? g v := by
  unfold defined?
  rw [keeps.entries?_of_inside inside]

theorem children_extends (wellFormed : g.WellFormed) {id : Nat} {entries : Entries}
    (found : g.get? id = some (.mapping entries)) : children larger entries = children g entries := by
  have own : ∀ key v, entries.get? key = some v → g.Inside v := fun key v held =>
    wellFormed.inside_of_mem found (Entries.mem_values_of_get? held)
  have entriesAgree : ∀ key, (entries.get? key).bind larger.entries? =
      (entries.get? key).bind g.entries? := by
    intro key
    cases held : entries.get? key with
    | none => rfl
    | some v => exact keeps.entries?_of_inside (own key v held)
  have itemsAgree : ∀ key, (entries.get? key).bind larger.items? =
      (entries.get? key).bind g.items? := by
    intro key
    cases held : entries.get? key with
    | none => rfl
    | some v => exact keeps.items?_of_inside (own key v held)
  have items : itemChildren larger entries = itemChildren g entries := by
    rw [itemChildren, itemChildren]
    cases held : entries.get? "items" with
    | none => rfl
    | some v => simp only [keeps.items?_of_inside (own _ v held)]
  have additional : additionalChildren larger entries = additionalChildren g entries := by
    rw [additionalChildren, additionalChildren]
    cases held : entries.get? "additionalProperties" with
    | none => rfl
    | some v => simp only [keeps.isMapping_of_inside (own _ v held)]
  have members : memberChildren larger entries = memberChildren g entries := by
    funext key
    rw [memberChildren, memberChildren, itemsAgree]
  rw [children, children, items, additional, members, propertyChildren, propertyChildren,
    entriesAgree]

theorem definedChildren_extends (wellFormed : g.WellFormed) {id : Nat} (bound : id < g.size) :
    definedChildren larger id = definedChildren g id := by
  obtain ⟨node, found⟩ := Graph.exists_get?_of_lt bound
  cases node with
  | mapping entries =>
    rw [definedChildren_of_get? found, definedChildren_of_get? (keeps.found found),
      children_extends keeps wellFormed found]
    refine List.filterMap_congr fun v member => ?_
    exact defined?_extends keeps (inside_of_mem_children wellFormed found member)
  | sequence items =>
    have missing : ∀ h : Graph, h.get? id = some (.sequence items) → definedChildren h id = [] := by
      intro h read
      rw [definedChildren, Graph.entries?, Graph.node?, read]
      rfl
    rw [missing g found, missing larger (keeps.found found)]

/-- A larger graph has the same structural dependencies. -/
theorem mem_dependencies_extends (wellFormed : g.WellFormed) {root id : Nat}
    (defined : defined? g (.node root) = some root) :
    id ∈ dependencies larger (.node root) ↔ id ∈ dependencies g (.node root) := by
  obtain ⟨_, _, found, _⟩ := defined?_eq_some defined
  have bound := Graph.lt_size_of_get? found
  have stillDefined : defined? larger (.node root) = some root := by
    rw [defined?_extends keeps, defined]
    intro other same
    cases same
    exact bound
  rw [mem_dependencies_iff stillDefined, mem_dependencies_iff defined]
  constructor
  · intro path
    have both : Relation.ReflTransGen (Search.Leads (definedChildren g)) root id ∧ id < g.size := by
      induction path with
      | refl => exact ⟨.refl, bound⟩
      | tail _ leads ih =>
        rw [Search.Leads, definedChildren_extends keeps wellFormed ih.2] at leads
        exact ⟨ih.1.tail leads, lt_size_of_mem_definedChildren leads⟩
    exact both.1
  · intro path
    have both : Relation.ReflTransGen (Search.Leads (definedChildren larger)) root id ∧
        id < g.size := by
      induction path with
      | refl => exact ⟨.refl, bound⟩
      | tail _ leads ih =>
        refine ⟨ih.1.tail ?_, lt_size_of_mem_definedChildren leads⟩
        rw [Search.Leads, definedChildren_extends keeps wellFormed ih.2]
        exact leads
    exact both.1

end

end Schema

end Typewright
