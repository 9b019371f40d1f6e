import Typewright.Proofs.Document.Renumbering

/-!
# Copies of containers

Of a document only those containers count that its root leads to. They stand in another graph under
other numbers, whatever else is there, if each is found under a number of its own with the numbers
inside it changed in the same way (`Graph.Copies`). Containers that lead to one another only
(`Graph.SelfContained`) form a graph of their own (`Graph.gather`), which stands in every graph that
has them (`Graph.SelfContained.renumbers_gather`).
-/

namespace Typewright

namespace Graph

/-- Containers of a graph that lead to one another only, each listed once. -/
structure SelfContained (g : Graph) (ids : List Nat) : Prop where
  nodup : ids.Nodup
  found : ∀ id ∈ ids, ∃ node, g.get? id = some node ∧ ∀ child ∈ node.successors, child ∈ ids

/-- Containers of a graph stand in another one under other numbers, each under one of its own. -/
structure Copies (g h : Graph) (ids : List Nat) (r : Nat → Nat) : Prop where
  apart : ∀ a ∈ ids, ∀ b ∈ ids, r a = r b → a = b
  there : ∀ id ∈ ids, h.get? (r id) = (g.get? id).map (Node.renumber r)

/-- The containers of a list as a graph of their own, under the numbers of their places. -/
def gather (g : Graph) (ids : List Nat) : Graph :=
  ⟨(ids.map fun id => ((g.get? id).getD (.sequence [])).renumber (ids.idxOf ·)).toArray⟩

variable {g h : Graph} {ids : List Nat} {r : Nat → Nat}

theorem size_gather (g : Graph) (ids : List Nat) : (g.gather ids).size = ids.length := by
  simp [gather, size]

/-- Containers stand in their own graph under their own numbers. -/
theorem Copies.refl (g : Graph) (ids : List Nat) : g.Copies g ids id := by
  refine ⟨fun a _ b _ same => same, fun place _ => ?_⟩
  rw [show (Node.renumber id : Node → Node) = id from funext Node.renumber_id, Option.map_id]
  rfl

/-- Containers of a graph stand in a larger one under their own numbers. -/
theorem Extends.copies (keeps : g.Extends h) (own : g.SelfContained ids) : g.Copies h ids id := by
  refine ⟨fun a _ b _ same => same, fun place member => ?_⟩
  obtain ⟨node, found, _⟩ := own.found place member
  rw [id_eq, keeps.found found, found, Option.map_some, Node.renumber_id]

/-- All containers that a container leads to, itself included. -/
theorem Closed.selfContained_reachable (closed : g.Closed) {start : Nat} (inside : start < g.size) :
    g.SelfContained (g.reachable start) := by
  have bounded : Search.Bounded g.successors g.size start := fun a b _ leads => closed a b leads
  refine ⟨Search.order_nodup bounded, fun id member => ?_⟩
  have path := (Search.mem_order_iff bounded).1 member
  have bound : id < g.size := by
    cases path with
    | refl => exact inside
    | tail _ leads => exact closed _ _ leads
  refine ⟨_, Array.getElem?_eq_getElem bound, fun child held => ?_⟩
  have leads : child ∈ g.successors id :=
    mem_successors_iff.2 ⟨_, Array.getElem?_eq_getElem bound, held⟩
  exact (Search.mem_order_iff bounded).2 (path.tail leads)

namespace SelfContained

variable (own : g.SelfContained ids)
include own

/-- A listed container stands in its place. -/
theorem get?_gather {place id : Nat} (held : ids[place]? = some id) :
    (g.gather ids).get? place = (g.get? id).map (Node.renumber (ids.idxOf ·)) := by
  obtain ⟨node, found, _⟩ := own.found id (List.mem_of_getElem? held)
  rw [gather, get?, List.getElem?_toArray, List.getElem?_map, held, Option.map_some, found]
  rfl

/-- What stands in a place is a listed container. -/
theorem exists_of_get?_gather {place : Nat} {node : Node}
    (there : (g.gather ids).get? place = some node) :
    ∃ id ∈ ids, ∃ old, place = ids.idxOf id ∧ g.get? id = some old ∧
      node = old.renumber (ids.idxOf ·) := by
  have bound : place < ids.length := size_gather g ids ▸ lt_size_of_get? there
  have held : ids[place]? = some ids[place] := List.getElem?_eq_getElem bound
  have member := List.getElem_mem bound
  obtain ⟨old, found, _⟩ := own.found _ member
  have moved := own.get?_gather held
  rw [there, found] at moved
  exact ⟨_, member, old, (own.nodup.idxOf_getElem place bound).symm, found, Option.some.inj moved⟩

/-- What the containers in their places lead to are places of listed ones. -/
theorem exists_of_mem_successors {place child : Nat}
    (leads : child ∈ (g.gather ids).successors place) : ∃ id ∈ ids, child = ids.idxOf id := by
  obtain ⟨node, there, inside⟩ := mem_successors_iff.1 leads
  obtain ⟨id, member, old, _, found, rfl⟩ := own.exists_of_get?_gather there
  obtain ⟨node, same, closed⟩ := own.found id member
  obtain rfl : node = old := Option.some.inj (same.symm.trans found)
  rw [Node.successors_renumber] at inside
  obtain ⟨part, held, rfl⟩ := List.mem_map.1 inside
  exact ⟨part, closed part held, rfl⟩

/-- Listed containers form a graph that stands in every graph that has them. -/
theorem renumbers_gather (copies : g.Copies h ids r) :
    (g.gather ids).Renumbers h (placed (ids.map r) h.size) := by
  have place {id : Nat} (member : id ∈ ids) :
      placed (ids.map r) h.size (ids.idxOf id) = r id := by
    refine placed_of_getElem? ?_
    rw [List.getElem?_map, List.getElem?_idxOf member, Option.map_some]
  refine .of_placed ?_ (fun other member => ?_) ?_ ?_ (fun id other held => ?_) fun k => ?_
  · exact own.nodup.map_on fun a first b second same => copies.apart a first b second same
  · obtain ⟨id, listed, rfl⟩ := List.mem_map.1 member
    obtain ⟨node, found, _⟩ := own.found id listed
    have there := copies.there id listed
    rw [found] at there
    exact lt_size_of_get? there
  · exact Nat.le_of_eq ((List.length_map _).trans (size_gather g ids).symm)
  · rw [size_gather, List.length_map, Nat.add_comm]
  · rw [List.getElem?_map, Option.map_eq_some_iff] at held
    obtain ⟨old, listed, rfl⟩ := held
    have member := List.mem_of_getElem? listed
    obtain ⟨node, found, closed⟩ := own.found _ member
    rw [copies.there _ member, own.get?_gather listed, found, Option.map_some, Option.map_some,
      Option.map_some, Node.renumber_renumber]
    refine congrArg some (Node.renumber_congr fun child inside => ?_)
    exact (place (closed child inside)).symm
  · rw [List.length_map, show h.get? (h.size + k) = none from Array.getElem?_eq_none (by simp [size]),
      show (g.gather ids).get? (ids.length + k) = none from
        Array.getElem?_eq_none (by rw [← size, size_gather]; omega)]
    rfl

end SelfContained

end Graph

/-- The containers that the root of a document leads to. -/
def Document.reached (document : Document) : List Nat :=
  match document.root with
  | .node id => document.graph.reachable id
  | .scalar _ => []

/-- A document is a copy of another one if what the root leads to stands in it under other numbers,
and the root is the same value. -/
def Document.IsCopy (document copy : Document) : Prop :=
  ∃ r, copy.root = document.root.renumber r ∧
    document.graph.Copies copy.graph document.reached r

theorem Document.IsCopy.refl (document : Document) : document.IsCopy document :=
  ⟨id, (Value.renumber_id _).symm, .refl _ _⟩

end Typewright
