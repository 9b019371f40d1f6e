import Mathlib.Data.List.Nodup
import Typewright.Proofs.Document.Entries
import Typewright.Proofs.Document.Search

/-!
# Renumbered graphs

A graph stands in another one under other numbers if its containers are found there, with the
numbers inside them changed in the same way (`Graph.Renumbers`). The other graph may have further
containers. What a graph says of a value, the other says of the renumbered value, and this stays so
while containers are added to both (`Graph.Renumbers.add`).
-/

namespace Typewright

/-- A value whose container has another number. -/
def Value.renumber (f : Nat → Nat) : Value → Value
  | .scalar s => .scalar s
  | .node id => .node (f id)

/-- Entries whose containers have other numbers. -/
def Entries.renumber (f : Nat → Nat) (entries : Entries) : Entries :=
  entries.map fun entry => (entry.1, entry.2.renumber f)

/-- A container whose parts have other numbers. -/
def Node.renumber (f : Nat → Nat) : Node → Node
  | .mapping entries => .mapping (entries.renumber f)
  | .sequence items => .sequence (items.map (Value.renumber f))

section

variable (f : Nat → Nat)

@[simp]
theorem Value.renumber_scalar (s : Scalar) : (Value.scalar s).renumber f = .scalar s := rfl

@[simp]
theorem Value.renumber_node (id : Nat) : (Value.node id).renumber f = .node (f id) := rfl

@[simp]
theorem Value.str?_renumber (v : Value) : (v.renumber f).str? = v.str? := by
  cases v <;> rfl

@[simp]
theorem Value.node?_renumber (v : Value) : (v.renumber f).node? = v.node?.map f := by
  cases v <;> rfl

theorem Value.renumber_eq_scalar_iff {v : Value} {s : Scalar} :
    v.renumber f = .scalar s ↔ v = .scalar s := by
  cases v <;> simp

@[simp]
theorem Entries.renumber_cons (entry : Scalar × Value) (entries : Entries) :
    Entries.renumber f (entry :: entries) =
      (entry.1, entry.2.renumber f) :: Entries.renumber f entries := rfl

@[simp]
theorem Entries.isEmpty_renumber (entries : Entries) :
    (entries.renumber f).isEmpty = entries.isEmpty := by
  cases entries <;> rfl

@[simp]
theorem Entries.get?_renumber (entries : Entries) (key : String) :
    (entries.renumber f).get? key = (entries.get? key).map (Value.renumber f) := by
  induction entries with
  | nil => rfl
  | cons entry entries ih =>
    rw [renumber_cons, get?_cons, get?_cons, ih]
    split <;> rfl

@[simp]
theorem Entries.has_renumber (entries : Entries) (key : String) :
    (entries.renumber f).has key = entries.has key := by
  simp [has]

theorem Entries.put_renumber (entries : Entries) (key : Scalar) (v : Value) :
    (entries.put key v).renumber f = (entries.renumber f).put key (v.renumber f) := by
  induction entries with
  | nil => rfl
  | cons entry entries ih =>
    obtain ⟨k, w⟩ := entry
    rw [put, renumber_cons, put]
    split
    · rfl
    · rw [renumber_cons, ih]

theorem Entries.foldl_put_renumber (more entries : Entries) :
    (more.foldl (fun all (key, v) => all.put key v) entries).renumber f =
      (more.renumber f).foldl (fun all (key, v) => all.put key v) (entries.renumber f) := by
  induction more generalizing entries with
  | nil => rfl
  | cons entry more ih => rw [List.foldl_cons, ih, renumber_cons, List.foldl_cons, put_renumber]

theorem Node.successors_renumber (node : Node) :
    (node.renumber f).successors = node.successors.map f := by
  have each : ∀ vs : List Value, (vs.map (Value.renumber f)).filterMap Value.node? =
      (vs.filterMap Value.node?).map f := by
    intro vs
    rw [List.filterMap_map, List.map_filterMap]
    exact List.filterMap_congr fun v _ => Value.node?_renumber f v
  cases node with
  | mapping entries =>
    have values : (Entries.renumber f entries).map (·.2) =
        (entries.map (·.2)).map (Value.renumber f) := by
      simp [Entries.renumber]
    rw [renumber, successors, successors, Node.values, Node.values, values, each]
  | sequence items => rw [renumber, successors, successors, Node.values, Node.values, each]

end

theorem Value.renumber_id (v : Value) : v.renumber id = v := by
  cases v <;> rfl

theorem Entries.renumber_id (entries : Entries) : entries.renumber id = entries := by
  simp [Entries.renumber, Value.renumber_id]

theorem Node.renumber_id (node : Node) : node.renumber id = node := by
  have same : (Value.renumber id : Value → Value) = id := funext Value.renumber_id
  cases node with
  | mapping entries => rw [renumber, Entries.renumber_id]
  | sequence items => rw [renumber, same, List.map_id]

theorem Value.renumber_renumber (f r : Nat → Nat) (v : Value) :
    (v.renumber r).renumber f = v.renumber (f ∘ r) := by
  cases v <;> rfl

theorem Node.renumber_renumber (f r : Nat → Nat) (node : Node) :
    (node.renumber r).renumber f = node.renumber (f ∘ r) := by
  cases node with
  | mapping entries => simp [renumber, Entries.renumber, Value.renumber_renumber]
  | sequence items => simp [renumber, Value.renumber_renumber]

theorem Value.renumber_congr {f r : Nat → Nat} {v : Value}
    (same : ∀ id, v = .node id → f id = r id) : v.renumber f = v.renumber r := by
  cases v with
  | scalar s => rfl
  | node id => rw [renumber_node, renumber_node, same id rfl]

/-- Only the numbers of the containers inside count. -/
theorem Node.renumber_congr {f r : Nat → Nat} {node : Node}
    (same : ∀ child ∈ node.successors, f child = r child) : node.renumber f = node.renumber r := by
  have each : ∀ v ∈ node.values, v.renumber f = v.renumber r := fun v member =>
    Value.renumber_congr fun id isNode => same id (mem_successors_iff.2 (isNode ▸ member))
  cases node with
  | mapping entries =>
    refine congrArg Node.mapping (List.map_congr_left fun entry member => ?_)
    exact Prod.ext rfl (each entry.2 (List.mem_map_of_mem member))
  | sequence items => exact congrArg Node.sequence (List.map_congr_left each)

theorem Node.renumber_eq_self {f : Nat → Nat} {node : Node}
    (same : ∀ child ∈ node.successors, f child = child) : node.renumber f = node :=
  (renumber_congr same).trans (renumber_id node)

namespace Graph

/-- A graph has the containers of another under other numbers, each under one of its own. Numbers
behind the last container go to numbers behind the last container. -/
structure Renumbers (g h : Graph) (f : Nat → Nat) : Prop where
  injective : Function.Injective f
  found : ∀ id, h.get? (f id) = (g.get? id).map (Node.renumber f)
  behind : ∀ k, f (g.size + k) = h.size + k

namespace Renumbers

theorem refl (g : Graph) : g.Renumbers g id := by
  refine ⟨Function.injective_id, fun place => ?_, fun _ => rfl⟩
  cases found : g.get? place with
  | none => simpa using found
  | some node => simpa [Node.renumber_id] using found

variable {g h : Graph} {f : Nat → Nat} (renumbers : g.Renumbers h f)
include renumbers

theorem contains_map (ids : List Nat) (id : Nat) : (ids.map f).contains (f id) = ids.contains id :=
  Search.contains_map renumbers.injective ids id

theorem size_le : g.size ≤ h.size := by
  have inside : (List.range g.size).map f ⊆ List.range h.size := by
    intro place member
    obtain ⟨id, bound, rfl⟩ := List.mem_map.1 member
    have there := renumbers.found id
    rw [show g.get? id = some _ from Array.getElem?_eq_getElem (List.mem_range.1 bound)] at there
    exact List.mem_range.2 (lt_size_of_get? there)
  have once := List.Nodup.map renumbers.injective (List.nodup_range (n := g.size))
  simpa using (once.subperm inside).length_le

theorem node? (v : Value) : h.node? (v.renumber f) = (g.node? v).map (Node.renumber f) := by
  cases v with
  | scalar s => rfl
  | node id => exact renumbers.found id

theorem entries? (v : Value) :
    h.entries? (v.renumber f) = (g.entries? v).map (Entries.renumber f) := by
  rw [Graph.entries?, Graph.entries?, renumbers.node?]
  rcases g.node? v with _ | _ | _ <;> rfl

theorem items? (v : Value) :
    h.items? (v.renumber f) = (g.items? v).map (List.map (Value.renumber f)) := by
  rw [Graph.items?, Graph.items?, renumbers.node?]
  rcases g.node? v with _ | _ | _ <;> rfl

theorem isMapping (v : Value) : h.isMapping (v.renumber f) = g.isMapping v := by
  simp [Graph.isMapping, renumbers.entries?]

theorem field? (v : Value) (key : String) :
    h.field? (v.renumber f) key = (g.field? v key).map (Value.renumber f) := by
  rw [Graph.field?, Graph.field?, renumbers.entries?]
  cases g.entries? v with
  | none => rfl
  | some entries => exact Entries.get?_renumber f entries key

theorem isTruthy (v : Value) : h.isTruthy (v.renumber f) = g.isTruthy v := by
  cases v with
  | scalar s => rfl
  | node id =>
    rw [Value.renumber_node, Graph.isTruthy, Graph.isTruthy, renumbers.found]
    rcases g.get? id with _ | entries | items
    · rfl
    · simp [Node.renumber]
    · simp [Node.renumber]

theorem successors (id : Nat) : h.successors (f id) = (g.successors id).map f := by
  rw [Graph.successors, Graph.successors, renumbers.found]
  cases g.get? id with
  | none => rfl
  | some node => exact Node.successors_renumber f node

/-- The entries of what entries hold under a text. -/
theorem bind_entries? (entries : Entries) (key : String) :
    ((entries.renumber f).get? key).bind h.entries? =
      ((entries.get? key).bind g.entries?).map (Entries.renumber f) := by
  rw [Entries.get?_renumber]
  cases entries.get? key with
  | none => rfl
  | some v => exact renumbers.entries? v

/-- The items of what entries hold under a text. -/
theorem bind_items? (entries : Entries) (key : String) :
    ((entries.renumber f).get? key).bind h.items? =
      ((entries.get? key).bind g.items?).map (List.map (Value.renumber f)) := by
  rw [Entries.get?_renumber]
  cases entries.get? key with
  | none => rfl
  | some v => exact renumbers.items? v

/-- Adding a container to one graph and the renumbered one to the other. -/
theorem add (node : Node) : (g.add node).1.Renumbers (h.add (node.renumber f)).1 f := by
  refine ⟨renumbers.injective, fun id => ?_, fun k => ?_⟩
  · have last : f g.size = h.size := renumbers.behind 0
    rcases Nat.lt_trichotomy id g.size with inside | rfl | outside
    · obtain ⟨old, found⟩ : ∃ old, g.get? id = some old :=
        ⟨_, Array.getElem?_eq_getElem inside⟩
      have there := renumbers.found id
      rw [found] at there
      rw [(extends_add h _).found there, (extends_add g node).found found]
      rfl
    · rw [last, get?_add, get?_add]
      rfl
    · obtain ⟨k, rfl⟩ := Nat.exists_eq_add_of_lt outside
      have place := renumbers.behind (k + 1)
      rw [← Nat.add_assoc] at place
      have missing : (g.add node).1.get? (g.size + k + 1) = none :=
        Array.getElem?_eq_none (by rw [← size, size_add]; omega)
      have there : (h.add (node.renumber f)).1.get? (h.size + (k + 1)) = none :=
        Array.getElem?_eq_none (by rw [← size, size_add]; omega)
      rw [place, there, missing]
      rfl
  · rw [size_add, size_add, Nat.add_assoc, renumbers.behind, Nat.add_assoc]

theorem append (nodes : List Node) :
    Renumbers ⟨g.nodes ++ nodes.toArray⟩ ⟨h.nodes ++ (nodes.map (Node.renumber f)).toArray⟩ f := by
  induction nodes generalizing g h with
  | nil => simpa using renumbers
  | cons node nodes ih =>
    have later := ih (renumbers.add node)
    simpa [Graph.add] using later

end Renumbers

/-! ## Places -/

/-- New numbers for containers: the first of them come to the places of a list, and the others follow
each other from a place on. -/
def placed (places : List Nat) (start id : Nat) : Nat :=
  (places[id]?).getD (start + (id - places.length))

section

variable {places : List Nat} {start : Nat}

theorem placed_of_getElem? {id place : Nat} (held : places[id]? = some place) :
    placed places start id = place := by
  rw [placed, held, Option.getD_some]

theorem placed_add (k : Nat) : placed places start (places.length + k) = start + k := by
  rw [placed, List.getElem?_eq_none (by omega), Option.getD_none, Nat.add_sub_cancel_left]

theorem placed_injective (nodup : places.Nodup) (before : ∀ place ∈ places, place < start) :
    Function.Injective (placed places start) := by
  have small : ∀ {id}, id < places.length → placed places start id < start := by
    intro id bound
    rw [placed_of_getElem? (List.getElem?_eq_getElem bound)]
    exact before _ (List.getElem_mem bound)
  have large : ∀ {id}, ¬ id < places.length →
      placed places start id = start + (id - places.length) := by
    intro id outside
    rw [placed, List.getElem?_eq_none (by omega), Option.getD_none]
  intro a b same
  by_cases first : a < places.length <;> by_cases second : b < places.length
  · rw [placed_of_getElem? (List.getElem?_eq_getElem first),
      placed_of_getElem? (List.getElem?_eq_getElem second)] at same
    exact (List.Nodup.getElem_inj_iff nodup).1 same
  · have below := small first
    rw [same, large second] at below
    omega
  · have below := small second
    rw [← same, large first] at below
    omega
  · rw [large first, large second] at same
    omega

/-- A graph stands in another one if its first containers are found in the places of a list and the
others at the end. -/
theorem Renumbers.of_placed {g h : Graph} (nodup : places.Nodup)
    (before : ∀ place ∈ places, place < start) (inside : places.length ≤ g.size)
    (sizes : h.size + places.length = g.size + start)
    (first : ∀ id place, places[id]? = some place →
      h.get? place = (g.get? id).map (Node.renumber (placed places start)))
    (later : ∀ k, h.get? (start + k) =
      (g.get? (places.length + k)).map (Node.renumber (placed places start))) :
    g.Renumbers h (placed places start) := by
  refine ⟨placed_injective nodup before, fun id => ?_, fun k => ?_⟩
  · by_cases bound : id < places.length
    · have held := List.getElem?_eq_getElem bound
      rw [placed_of_getElem? held]
      exact first id _ held
    · obtain ⟨k, rfl⟩ := Nat.exists_eq_add_of_le (Nat.le_of_not_lt bound)
      rw [placed_add]
      exact later k
  · obtain ⟨more, same⟩ := Nat.exists_eq_add_of_le inside
    rw [same, Nat.add_assoc, placed_add]
    omega

theorem placed_range {count id : Nat} (bound : id < count) :
    placed (List.range count) start id = id :=
  placed_of_getElem? (List.getElem?_range bound)

/-- Further containers do not count for those that are there, if these lead to nothing else. -/
theorem renumbers_of_extends {g larger : Graph} (keeps : g.Extends larger)
    (closed : g.Closed) : g.Renumbers larger (placed (List.range g.size) larger.size) := by
  have le := keeps.size_le
  refine .of_placed List.nodup_range (fun place member => ?_) (by simp) ?_ ?_ fun k => ?_
  · have bound := List.mem_range.1 member
    omega
  · rw [List.length_range]
    omega
  · intro id place held
    obtain ⟨bound, rfl⟩ := List.getElem?_eq_some_iff.1 held
    rw [List.length_range] at bound
    have found : g.get? id = some g.nodes[id] := Array.getElem?_eq_getElem bound
    have inside : ∀ child ∈ g.nodes[id].successors, child < g.size := fun child member =>
      closed id child (mem_successors_iff.2 ⟨_, found, member⟩)
    rw [List.getElem_range, keeps.found found, found, Option.map_some,
      Node.renumber_eq_self fun child member => placed_range (inside child member)]
  · have missing : g.get? (g.size + k) = none := Array.getElem?_eq_none (Nat.le_add_right _ _)
    have there : larger.get? (larger.size + k) = none :=
      Array.getElem?_eq_none (Nat.le_add_right _ _)
    rw [List.length_range, there, missing]
    rfl

end

end Graph

end Typewright
