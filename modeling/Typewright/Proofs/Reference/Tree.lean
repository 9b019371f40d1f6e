import Typewright.Proofs.Document.Forest
import Typewright.Reference.Link
import Typewright.Reference.Resolve

/-!
# Detaching and copying trees

Detaching a document that JSON could have said and copying it before it is linked go through its
values in the same order, and both give the same containers under new numbers, each after those
inside it (`Reference.detach_of_forest`, `Reference.copyTree_of_forest`).
-/

namespace Typewright

namespace Reference

open Typewright.Graph

/-! ## Going through values from left to right -/

/-- A walk goes through values in order and gives new values for them, with the states before and
after. -/
inductive Walks {σ : Type} (walk : σ → Value → Except Error (σ × Value)) :
    σ → List Value → σ → List Value → Prop
  | nil {s : σ} : Walks walk s [] s []
  | cons {s between after : σ} {v w : Value} {vs ws : List Value}
      (one : walk s v = .ok (between, w)) (rest : Walks walk between vs after ws) :
      Walks walk s (v :: vs) after (w :: ws)

namespace Walks

variable {σ : Type} {walk : σ → Value → Except Error (σ × Value)} {s after : σ}
variable {vs ws : List Value}

theorem single {v w : Value} (walks : Walks walk s [v] after [w]) : walk s v = .ok (after, w) := by
  cases walks with
  | cons one rest =>
    cases rest
    exact one

theorem items (walks : Walks walk s vs after ws) (kept : List Value) :
    vs.foldlM (fun (state : σ × List Value) v => do
        let (s, v) ← walk state.1 v
        return (s, state.2 ++ [v])) (s, kept) = .ok (after, kept ++ ws) := by
  induction walks generalizing kept with
  | nil => rw [List.append_nil]; rfl
  | @cons s between after v w vs ws one rest ih =>
    rw [List.foldlM_cons]
    dsimp only
    rw [one]
    exact (ih (kept ++ [w])).trans (by rw [List.append_assoc]; rfl)

theorem copied (entries : Entries) (walks : Walks walk s (entries.map (·.2)) after ws)
    (kept : Entries) :
    entries.foldlM (fun (state : σ × Entries) (entry : Scalar × Value) => do
        let (s, v) ← walk state.1 entry.2
        return (s, state.2 ++ [(entry.1, v)])) (s, kept) =
      .ok (after, kept ++ (entries.map (·.1)).zip ws) := by
  induction entries generalizing s kept ws with
  | nil => cases walks; rw [List.map_nil, List.zip_nil_left, List.append_nil]; rfl
  | cons entry entries ih =>
    cases walks with
    | @cons _ between _ _ w _ ws one rest =>
      rw [List.foldlM_cons]
      dsimp only at one ⊢
      rw [one]
      exact (ih rest (kept ++ [(entry.1, w)])).trans (by rw [List.append_assoc]; rfl)

theorem detached (entries : Entries) (walks : Walks walk s (entries.map (·.2)) after ws)
    (texts : ∀ entry ∈ entries, ∃ text, entry.1 = .str text) (kept : Entries) :
    entries.foldlM (fun (state : σ × Entries) (entry : Scalar × Value) => do
        let key ← detachedKey entry.1
        let (s, v) ← walk state.1 entry.2
        return (s, Entries.put state.2 key v)) (s, kept) =
      .ok (after, ((entries.map (·.1)).zip ws).foldl
        (fun (all : Entries) entry => all.put entry.1 entry.2) kept) := by
  induction entries generalizing s kept ws with
  | nil => cases walks; rfl
  | cons entry entries ih =>
    cases walks with
    | cons one rest =>
      obtain ⟨text, isText⟩ := texts entry List.mem_cons_self
      rw [List.foldlM_cons]
      dsimp only
      rw [one, isText]
      exact (ih rest (fun other member => texts other (List.mem_cons_of_mem _ member)) _).trans
        (by rw [List.map_cons, isText]; rfl)

end Walks

/-- The entries of a mapping with new numbers, from its keys and the new values. -/
theorem zip_renumber (r : Nat → Nat) (entries : Entries) :
    (entries.map (·.1)).zip ((entries.map (·.2)).map (Value.renumber r)) = entries.renumber r := by
  induction entries with
  | nil => rfl
  | cons entry entries ih => simp only [List.map_cons, List.zip_cons_cons, ih, Entries.renumber_cons]

/-! ## Detaching and copying -/

/-- Containers of a graph, each with the new numbers inside. -/
def moved (source : Graph) (r : Nat → Nat) (ids : List Nat) : List Node :=
  ids.map fun id => ((source.get? id).getD (.sequence [])).renumber r

theorem moved_append (source : Graph) (r : Nat → Nat) (ids more : List Nat) :
    moved source r (ids ++ more) = moved source r ids ++ moved source r more :=
  List.map_append

theorem moved_cons {source : Graph} {r : Nat → Nat} {id : Nat} {node : Node}
    (found : source.get? id = some node) (ids : List Nat) :
    moved source r (id :: ids) = node.renumber r :: moved source r ids := by
  rw [moved, List.map_cons, found]
  rfl

/-- All containers of a graph in order, under the numbers that they have. -/
theorem moved_range (g : Graph) : moved g id (List.range g.size) = g.nodes.toList := by
  refine List.ext_getElem? fun place => ?_
  have right : g.nodes.toList[place]? = g.get? place := Array.getElem?_toList
  rw [moved, List.getElem?_map, right]
  by_cases bound : place < g.size
  · rw [List.getElem?_range bound, Option.map_some, Node.renumber_id,
      show g.get? place = some _ from Array.getElem?_eq_getElem bound]
    rfl
  · rw [List.getElem?_eq_none (by simpa using bound),
      show g.get? place = none from Array.getElem?_eq_none (Nat.le_of_not_lt bound)]
    rfl

/-- Numbers are given in the order of a list, from a first one on. -/
def Counts (r : Nat → Nat) (ids : List Nat) (start : Nat) : Prop :=
  ∀ place id, ids[place]? = some id → r id = start + place

section

variable {source : Graph} {r : Nat → Nat} {depth : Nat} {vs : List Value} {ids : List Nat}

/-- The place of each number in a list counts them. -/
theorem counts_idxOf (nodup : ids.Nodup) : Counts (fun id => ids.idxOf id) ids 0 := by
  intro place id held
  obtain ⟨bound, rfl⟩ := List.getElem?_eq_some_iff.1 held
  exact (nodup.idxOf_getElem place bound).trans (Nat.zero_add place).symm

theorem Counts.append {more : List Nat} {start : Nat} (counts : Counts r (ids ++ more) start) :
    Counts r ids start ∧ Counts r more (start + ids.length) := by
  constructor
  · intro place id held
    have bound := (List.getElem?_eq_some_iff.1 held).1
    exact counts place id (by rw [List.getElem?_append_left bound, held])
  · intro place id held
    rw [counts (ids.length + place) id (by
      rw [List.getElem?_append_right (by omega), Nat.add_sub_cancel_left, held]), Nat.add_assoc]

theorem Counts.cons {id : Nat} {more : List Nat} {start : Nat}
    (counts : Counts r (id :: more) start) : r id = start ∧ Counts r more (start + 1) := by
  refine ⟨counts 0 id rfl, fun place other held => ?_⟩
  rw [counts (place + 1) other (by rw [List.getElem?_cons_succ, held])]
  omega

/-- The entries of a mapping with text keys are put together again as they were. -/
theorem put_renumber {entries : Entries} (distinct : entries.Distinct) :
    ((entries.map (·.1)).zip ((entries.map (·.2)).map (Value.renumber r))).foldl
      (fun (all : Entries) entry => all.put entry.1 entry.2) [] = entries.renumber r := by
  rw [zip_renumber]
  exact Entries.foldl_put_of_fresh [] (List.pairwise_map.2 distinct) (by simp [Entries.Lacks])

end

/-- A walk that builds new containers: it keeps a state with the graph built so far, passes scalars of
JSON on, and puts the new container for one that it has gone through behind the others. -/
structure Builder (source : Graph) (r : Nat → Nat) (σ : Type) where
  walk : Nat → List Nat → σ → Value → Except Error (σ × Value)
  graph : σ → Graph
  put : σ → Node → σ
  graph_put : ∀ s node, graph (put s node) = ((graph s).add node).1
  scalar : ∀ fuel around s v text, Json.scalarText v = .ok text →
    walk fuel around s (.scalar v) = .ok (s, .scalar v)
  node : ∀ fuel around s after id node, id ∉ around → source.get? id = some node →
    node.HasTextKeys →
    Walks (walk fuel (id :: around)) s node.values after (node.values.map (Value.renumber r)) →
    walk (fuel + 1) around s (.node id) =
      .ok (put after (node.renumber r), .node (graph after).size)

namespace Builder

variable {source : Graph} {r : Nat → Nat} {σ : Type} (builder : Builder source r σ)

theorem graph_foldl (nodes : List Node) (s : σ) :
    builder.graph (nodes.foldl builder.put s) = ⟨(builder.graph s).nodes ++ nodes.toArray⟩ := by
  induction nodes generalizing s with
  | nil => simp
  | cons node nodes ih =>
    rw [List.foldl_cons, ih, builder.graph_put]
    simp [Graph.add]

/-- Going through a forest puts its containers behind the others, each after those inside it. -/
theorem walks_of_forest {depth : Nat} {vs : List Value} {ids : List Nat}
    (forest : Forest source depth vs ids) (nodup : ids.Nodup) {fuel : Nat} {around : List Nat}
    {s : σ} (enough : depth ≤ fuel) (outside : ∀ id ∈ ids, id ∉ around)
    (counts : Counts r ids (builder.graph s).size) :
    Walks (builder.walk fuel around) s vs ((moved source r ids).foldl builder.put s)
      (vs.map (Value.renumber r)) := by
  induction forest generalizing fuel around s with
  | nil => exact .nil
  | scalar written rest ih =>
    exact .cons (builder.scalar _ _ _ _ _ written) (ih nodup enough outside counts)
  | @node depth id node vs inside more found keys values rest ihInside ih =>
    obtain ⟨fuel, rfl⟩ : ∃ less, fuel = less + 1 := ⟨fuel - 1, by omega⟩
    obtain ⟨countsInside, countsMore⟩ := counts.append
    obtain ⟨here, countsRest⟩ := countsMore.cons
    obtain ⟨onceInside, onceMore, apart⟩ := List.nodup_append.1 nodup
    obtain ⟨_, onceRest⟩ := List.nodup_cons.1 onceMore
    have walked : Walks (builder.walk fuel (id :: around)) s node.values
        ((moved source r inside).foldl builder.put s) (node.values.map (Value.renumber r)) :=
      ihInside onceInside (by omega) (fun other member => by
        rw [List.mem_cons, not_or]
        exact ⟨apart other member id List.mem_cons_self,
          outside other (List.mem_append_left _ member)⟩) countsInside
    have size : (builder.graph ((moved source r inside).foldl builder.put s)).size =
        (builder.graph s).size + inside.length := by
      rw [graph_foldl]
      simp [Graph.size, moved]
    have notAround := outside id (List.mem_append_right _ List.mem_cons_self)
    rw [moved_append, moved_cons found, List.foldl_append, List.foldl_cons, List.map_cons,
      Value.renumber_node, here, ← size]
    refine .cons (builder.node fuel around s _ id node notAround found keys walked) ?_
    refine ih onceRest enough (fun other member => ?_) ?_
    · exact outside other (List.mem_append_right _ (List.mem_cons_of_mem _ member))
    · rw [builder.graph_put, Graph.size_add, size]
      exact countsRest

end Builder

/-! ## Detaching and copying -/

section

variable (source : Graph) (r : Nat → Nat)

/-- Detaching builds a graph. -/
def detaching : Builder source r Graph where
  walk := detachWithin source
  graph := id
  put g node := (g.add node).1
  graph_put _ _ := rfl
  scalar fuel around s v text written := by
    rw [detachWithin, detachedScalar, written]
    rfl
  node fuel around g after id node outside found keys walked := by
    have notAround : around.contains id = false := by simpa using outside
    rw [detachWithin, notAround, found]
    cases node with
    | sequence items =>
      exact congrArg (· >>= fun made => Except.ok (made.1.add (.sequence made.2)))
        (walked.items [])
    | mapping entries =>
      have made := walked.detached entries keys.1 []
      rw [Node.values, put_renumber keys.2] at made
      exact congrArg (· >>= fun made => Except.ok (made.1.add (.mapping made.2))) made

/-- Copying builds a graph and notes the mappings that have an entry for a reference. -/
def copying : Builder source r (Graph × List Nat) where
  walk fuel _ := copyTree source fuel
  graph := Prod.fst
  put s node := ((s.1.add node).1,
    match node with
    | .mapping entries => s.2 ++ if entries.has Schema.refKey then [s.1.size] else []
    | .sequence _ => s.2)
  graph_put _ _ := rfl
  scalar fuel around s v text written := by
    cases v with
    | bytes bs => cases written
    | _ => rw [copyTree]; simp
  node fuel around s after id node outside found keys walked := by
    rw [copyTree, found]
    cases node with
    | sequence items =>
      exact congrArg (· >>= fun made => Except.ok (((made.1.1.add (.sequence made.2)).1, made.1.2),
        (made.1.1.add (.sequence made.2)).2)) (walked.items [])
    | mapping entries =>
      have made := walked.copied entries []
      rw [Node.values, zip_renumber, List.nil_append] at made
      exact congrArg (· >>= fun made => Except.ok (((made.1.1.add (.mapping made.2)).1,
        made.1.2 ++ if Entries.has made.2 Schema.refKey then
          (made.1.1.add (.mapping made.2)).2.node?.toList else []),
        (made.1.1.add (.mapping made.2)).2)) made

end

section

variable {source : Graph} {r : Nat → Nat} {depth : Nat} {v : Value} {ids : List Nat}
variable (forest : Forest source depth [v] ids) (nodup : ids.Nodup)
include forest nodup

/-- Detaching a tree gives its containers, each after those inside it. -/
theorem detach_of_forest (counts : Counts r ids 0) :
    detach ⟨source, v⟩ = .ok ⟨⟨(moved source r ids).toArray⟩, v.renumber r⟩ := by
  have fits : ids.length ≤ source.size + 1 :=
    Nat.le_succ_of_le (forest.length_le nodup)
  have walks : Walks ((detaching source r).walk (source.size + 1) []) Graph.empty [v] _ _ :=
    (detaching source r).walks_of_forest forest.within_length nodup fits (by simp) counts
  have graph := (detaching source r).graph_foldl (moved source r ids) .empty
  have made := walks.single
  change detachWithin source (source.size + 1) [] .empty v = _ at made
  rw [detach, made]
  change Except.ok (Document.mk ((moved source r ids).foldl (detaching source r).put .empty) _) = _
  rw [show (moved source r ids).foldl (detaching source r).put .empty = _ from graph]
  simp [detaching, Graph.empty]

/-- Copying a tree gives its containers, each after those inside it. -/
theorem copyTree_of_forest {fuel : Nat} (enough : depth ≤ fuel) (counts : Counts r ids 0) :
    copyTree source fuel (.empty, []) v =
      .ok ((moved source r ids).foldl (copying source r).put (.empty, []), v.renumber r) := by
  have walks : Walks ((copying source r).walk fuel []) (Graph.empty, []) [v] _ _ :=
    (copying source r).walks_of_forest forest nodup enough (by simp) counts
  exact walks.single

end

end Reference

end Typewright
