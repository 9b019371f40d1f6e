import Typewright.Json.Writer
import Typewright.Proofs.Document.Renumbering

/-!
# Forests

Values that JSON could have said: the scalars are those of JSON, keys are texts, and containers nest
within each other. The containers are listed as they are met, each after those inside it
(`Graph.Forest`); if none is listed twice, each of them stands in one place. What the root of a tree
leads to are the listed containers (`Graph.Forest.mem_reachable_iff`).
-/

namespace Typewright

/-- Whether the keys of a container are texts, each of which is there once. -/
def Node.HasTextKeys : Node → Prop
  | .mapping entries => (∀ entry ∈ entries, ∃ text, entry.1 = .str text) ∧ entries.Distinct
  | .sequence _ => True

theorem Node.HasTextKeys.renumber {node : Node} (keys : node.HasTextKeys) (r : Nat → Nat) :
    (node.renumber r).HasTextKeys := by
  cases node with
  | sequence items => trivial
  | mapping entries =>
    refine ⟨fun entry member => ?_, List.pairwise_map.2 keys.2⟩
    obtain ⟨old, present, rfl⟩ := List.mem_map.1 member
    exact keys.1 old present

theorem Node.values_renumber (node : Node) (r : Nat → Nat) :
    (node.renumber r).values = node.values.map (Value.renumber r) := by
  cases node <;> simp [renumber, values, Entries.renumber]

namespace Graph

/-- Whether containers nest no deeper than a bound in a value. -/
def nests (g : Graph) : Nat → Value → Bool
  | _, .scalar _ => true
  | 0, .node _ => false
  | depth + 1, .node id => (((g.get? id).map Node.values).getD []).all (g.nests depth)

/-- Values one after the other, with what is inside them: scalars of JSON, and containers whose keys
are texts, nested no deeper than a bound. The numbers of the containers are listed as they are met,
each after those inside it. -/
inductive Forest (g : Graph) : Nat → List Value → List Nat → Prop
  | nil {depth : Nat} : Forest g depth [] []
  | scalar {depth : Nat} {s : Scalar} {text : String} {vs : List Value} {ids : List Nat}
      (written : Json.scalarText s = .ok text) (rest : Forest g depth vs ids) :
      Forest g depth (.scalar s :: vs) ids
  | node {depth id : Nat} {node : Node} {vs : List Value} {inside more : List Nat}
      (found : g.get? id = some node) (keys : node.HasTextKeys)
      (values : Forest g depth node.values inside) (rest : Forest g (depth + 1) vs more) :
      Forest g (depth + 1) (.node id :: vs) (inside ++ id :: more)

namespace Forest

variable {g h : Graph} {depth : Nat} {vs : List Value} {ids : List Nat}

theorem append {ws : List Value} {more : List Nat} (forest : Forest g depth vs ids)
    (other : Forest g depth ws more) : Forest g depth (vs ++ ws) (ids ++ more) := by
  induction forest with
  | nil => exact other
  | scalar written rest ih => exact .scalar written (ih other)
  | node found keys values rest _ ih =>
    have both := Forest.node found keys values (ih other)
    simpa using both

/-- The containers of the first value come first. -/
theorem exists_cons {v : Value} (forest : Forest g depth (v :: vs) ids) :
    ∃ here more, ids = here ++ more ∧ Forest g depth [v] here ∧ Forest g depth vs more := by
  cases forest with
  | scalar written rest => exact ⟨[], ids, rfl, .scalar written .nil, rest⟩
  | @node depth id node _ inside more found keys values rest =>
    exact ⟨inside ++ [id], more, by simp, .node found keys values .nil, rest⟩

theorem mono (forest : Forest g depth vs ids) {deeper : Nat} (le : depth ≤ deeper) :
    Forest g deeper vs ids := by
  induction forest generalizing deeper with
  | nil => exact .nil
  | scalar written rest ih => exact .scalar written (ih le)
  | node found keys values rest inside ih =>
    obtain ⟨deeper, rfl⟩ : ∃ less, deeper = less + 1 := ⟨deeper - 1, by omega⟩
    exact .node found keys (inside (by omega)) (ih le)

/-- The depth of values is what counts, not the bound that is known of it. -/
theorem of_nests (forest : Forest g depth vs ids) {bound : Nat}
    (nests : ∀ v ∈ vs, g.nests bound v = true) : Forest g bound vs ids := by
  induction forest generalizing bound with
  | nil => exact .nil
  | scalar written rest ih =>
    exact .scalar written (ih fun v member => nests v (List.mem_cons_of_mem _ member))
  | @node depth id node vs inside more found keys values rest ihInside ih =>
    have first := nests (.node id) List.mem_cons_self
    have later := ih fun v member => nests v (List.mem_cons_of_mem _ member)
    cases bound with
    | zero => cases first
    | succ bound =>
      rw [Graph.nests, found, Option.map_some, Option.getD_some, List.all_eq_true] at first
      exact .node found keys (ihInside first) later

/-- Containers nest no deeper than there are containers. -/
theorem within_length (forest : Forest g depth vs ids) : Forest g ids.length vs ids := by
  induction forest with
  | nil => exact .nil
  | scalar written rest ih => exact .scalar written ih
  | @node depth id node vs inside more found keys values rest ihInside ih =>
    have length : (inside ++ id :: more).length = inside.length + more.length + 1 := by
      simp only [List.length_append, List.length_cons]
      omega
    rw [length]
    exact .node found keys (ihInside.mono (by omega)) (ih.mono (by omega))

theorem mem_of_head (forest : Forest g depth vs ids) {id : Nat} (member : .node id ∈ vs) :
    id ∈ ids := by
  induction forest with
  | nil => cases member
  | scalar written rest ih =>
    rcases List.mem_cons.1 member with same | later
    · cases same
    · exact ih later
  | node found keys values rest _ ih =>
    rcases List.mem_cons.1 member with same | later
    · cases same
      simp
    · exact List.mem_append_right _ (List.mem_cons_of_mem _ (ih later))

/-- A listed container is there, its keys are texts, and what it holds is listed. -/
theorem exists_node (forest : Forest g depth vs ids) {id : Nat} (member : id ∈ ids) :
    ∃ node, g.get? id = some node ∧ node.HasTextKeys ∧ ∀ child ∈ node.successors, child ∈ ids := by
  induction forest with
  | nil => cases member
  | scalar written rest ih => exact ih member
  | node found keys values rest ihInside ih =>
    rcases List.mem_append.1 member with inside | others
    · obtain ⟨node, there, texts, closed⟩ := ihInside inside
      exact ⟨node, there, texts, fun child held => List.mem_append_left _ (closed child held)⟩
    · rcases List.mem_cons.1 others with rfl | later
      · exact ⟨_, found, keys, fun child held =>
          List.mem_append_left _ (values.mem_of_head (Node.mem_successors_iff.1 held))⟩
      · obtain ⟨node, there, texts, closed⟩ := ih later
        exact ⟨node, there, texts, fun child held =>
          List.mem_append_right _ (List.mem_cons_of_mem _ (closed child held))⟩

theorem mem_of_successor (forest : Forest g depth vs ids) {id child : Nat} (member : id ∈ ids)
    (held : child ∈ g.successors id) : child ∈ ids := by
  obtain ⟨node, found, _, closed⟩ := forest.exists_node member
  obtain ⟨same, there, inside⟩ := mem_successors_iff.1 held
  cases found.symm.trans there
  exact closed child inside

/-- A listed container is reached from one of the values. -/
theorem exists_path (forest : Forest g depth vs ids) {id : Nat} (member : id ∈ ids) :
    ∃ start, .node start ∈ vs ∧
      Relation.ReflTransGen (Search.Leads g.successors) start id := by
  induction forest with
  | nil => cases member
  | scalar written rest ih =>
    obtain ⟨start, held, path⟩ := ih member
    exact ⟨start, List.mem_cons_of_mem _ held, path⟩
  | @node depth top node vs inside more found keys values rest ihInside ih =>
    rcases List.mem_append.1 member with inner | others
    · obtain ⟨start, held, path⟩ := ihInside inner
      exact ⟨top, List.mem_cons_self,
        .head (mem_successors_iff.2 ⟨_, found, Node.mem_successors_iff.2 held⟩) path⟩
    · rcases List.mem_cons.1 others with rfl | later
      · exact ⟨id, List.mem_cons_self, .refl⟩
      · obtain ⟨start, held, path⟩ := ih later
        exact ⟨start, List.mem_cons_of_mem _ held, path⟩

theorem lt_size (forest : Forest g depth vs ids) {id : Nat} (member : id ∈ ids) : id < g.size := by
  obtain ⟨_, found, _⟩ := forest.exists_node member
  exact lt_size_of_get? found

theorem length_le (forest : Forest g depth vs ids) (nodup : ids.Nodup) : ids.length ≤ g.size := by
  have inside : ids ⊆ List.range g.size := fun id member => by simpa using forest.lt_size member
  simpa using (nodup.subperm inside).length_le

/-- The same values in another graph, under other numbers. -/
theorem renumber {r : Nat → Nat} (forest : Forest g depth vs ids)
    (there : ∀ id ∈ ids, h.get? (r id) = (g.get? id).map (Node.renumber r)) :
    Forest h depth (vs.map (Value.renumber r)) (ids.map r) := by
  induction forest with
  | nil => exact .nil
  | scalar written rest ih => exact .scalar written (ih there)
  | @node depth id node vs inside more found keys values rest ihInside ih =>
    have here := there id (by simp)
    rw [found] at here
    have inner := ihInside fun other member => there other (List.mem_append_left _ member)
    have later := ih fun other member =>
      there other (List.mem_append_right _ (List.mem_cons_of_mem _ member))
    rw [← Node.values_renumber] at inner
    rw [List.map_append, List.map_cons, List.map_cons]
    exact .node here (keys.renumber r) inner later

/-- The same values in a graph with the same containers. -/
theorem congr (forest : Forest g depth vs ids) (there : ∀ id ∈ ids, h.get? id = g.get? id) :
    Forest h depth vs ids := by
  have same : vs.map (Value.renumber id) = vs := by
    rw [show (Value.renumber id : Value → Value) = id from funext Value.renumber_id, List.map_id]
  have moved := forest.renumber (h := h) (r := id) fun other member => by
    rw [id_eq, there other member, show (Node.renumber id : Node → Node) = id from
      funext Node.renumber_id, Option.map_id]
    rfl
  rwa [same, List.map_id] at moved

/-- The containers that the root of a tree leads to are the listed ones. -/
theorem mem_reachable_iff {root id : Nat} (forest : Forest g depth [.node root] ids) :
    id ∈ g.reachable root ↔ id ∈ ids := by
  have closed : ∀ {other}, Relation.ReflTransGen (Search.Leads g.successors) root other →
      other ∈ ids := by
    intro other path
    induction path with
    | refl => exact forest.mem_of_head List.mem_cons_self
    | tail _ leads ih => exact forest.mem_of_successor ih leads
  have bounded : Search.Bounded g.successors g.size root := fun a b path leads =>
    forest.lt_size (forest.mem_of_successor (closed path) leads)
  rw [reachable, Search.mem_order_iff bounded]
  refine ⟨closed, fun member => ?_⟩
  obtain ⟨start, held, path⟩ := forest.exists_path member
  cases List.mem_singleton.1 held
  exact path

end Forest

end Graph

end Typewright
