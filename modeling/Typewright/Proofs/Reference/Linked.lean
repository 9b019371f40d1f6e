import Mathlib.Data.List.Flatten
import Typewright.Proofs.Reference.Replaced
import Typewright.Proofs.Reference.Tree

/-!
# Linking a tree with one reference

A tree in which one mapping refers to another part of it is linked in a single pass: the tree is
copied as it is, the visit in preorder passes the containers without a reference
(`Reference.resolveAll_of_forest`), and where the reference stood its target stands afterwards
(`Reference.link_withProbe`).
-/

namespace Typewright

namespace Reference

open Typewright.Graph

variable {m : Type → Type} [Monad m] [LawfulMonad m] (load : String → Loading m Document)

/-! ## Visiting -/

/-- The number of values inside containers. -/
def weight (g : Graph) (ids : List Nat) : Nat :=
  (ids.flatMap fun id => ((g.get? id).map Node.values).getD []).length

theorem weight_append (g : Graph) (ids more : List Nat) :
    weight g (ids ++ more) = weight g ids + weight g more := by
  simp [weight]

/-- Containers hold no more values than all containers of a graph do. -/
theorem weight_le {g : Graph} {ids : List Nat} (nodup : ids.Nodup)
    (inside : ∀ id ∈ ids, id < g.size) : weight g ids ≤ weight g (List.range g.size) := by
  have subset : ids ⊆ List.range g.size := fun id member => List.mem_range.2 (inside id member)
  obtain ⟨same, perm, sublist⟩ := nodup.subperm subset
  have equal : weight g same = weight g ids := (perm.flatMap_right _).length_eq
  rw [← equal]
  exact (sublist.flatMap _).length_le

theorem weight_cons {g : Graph} {id : Nat} {node : Node} (found : g.get? id = some node)
    (ids : List Nat) : weight g (id :: ids) = node.values.length + weight g ids := by
  simp [weight, found]

omit [LawfulMonad m] in
theorem resolveAll_scalar (fuel : Nat) (seen : List Nat) (v : Scalar) (stack : List Value)
    (s : Linking) : (resolveAll load (fuel + 1) seen (.scalar v :: stack)).run s =
      (resolveAll load fuel seen stack).run s := by
  rw [resolveAll]

/-- Visiting a container that is no reference goes on with what it holds. -/
theorem resolveAll_node (fuel : Nat) {seen : List Nat} {id : Nat} (stack : List Value) {s : Linking}
    {node : Node} (unseen : id ∉ seen) (unlinked : s.link? id = none)
    (found : s.graph.get? id = some node) :
    (resolveAll load (fuel + 1) seen (.node id :: stack)).run s =
      (resolveAll load fuel (id :: seen) (node.values ++ stack)).run s := by
  have fresh : seen.contains id = false := by simpa using unseen
  have inside : s.inside (.node id) = node.values := by
    rw [Linking.inside, found]
    rfl
  rw [resolveAll, fresh]
  simp only [Bool.false_eq_true, if_false, StateT.run_bind, StateT.run_get, pure_bind, unlinked,
    inside]

/-- Visiting values without references changes nothing but what has been seen. -/
theorem resolveAll_of_forest {s : Linking} {depth : Nat} {vs : List Value} {ids : List Nat}
    (forest : Forest s.graph depth vs ids) (nodup : ids.Nodup)
    (unlinked : ∀ id ∈ ids, s.link? id = none) (fuel : Nat) (seen : List Nat) (stack : List Value)
    (unseen : ∀ id ∈ ids, id ∉ seen) :
    ∃ visited, (∀ id, id ∈ visited ↔ id ∈ ids ∨ id ∈ seen) ∧
      (resolveAll load (fuel + vs.length + weight s.graph ids) seen (vs ++ stack)).run s =
        (resolveAll load fuel visited stack).run s := by
  induction forest generalizing fuel seen stack with
  | nil => exact ⟨seen, by simp, rfl⟩
  | @scalar depth v text vs ids written rest ih =>
    obtain ⟨visited, same, ran⟩ := ih nodup unlinked fuel seen stack unseen
    refine ⟨visited, same, ?_⟩
    rw [List.length_cons, show fuel + (vs.length + 1) + weight s.graph ids =
      fuel + vs.length + weight s.graph ids + 1 by omega, List.cons_append, resolveAll_scalar, ran]
  | @node depth id node vs inside more found keys values rest ihInside ih =>
    obtain ⟨onceInside, onceMore, apart⟩ := List.nodup_append.1 nodup
    obtain ⟨notMore, onceRest⟩ := List.nodup_cons.1 onceMore
    have notInside : id ∉ inside := fun member => apart id member id List.mem_cons_self rfl
    obtain ⟨between, sameInside, ranInside⟩ := ihInside onceInside
      (fun other member => unlinked other (List.mem_append_left _ member))
      (fuel + vs.length + weight s.graph more) (id :: seen) (vs ++ stack)
      (fun other member => by
        rw [List.mem_cons, not_or]
        exact ⟨fun same => notInside (same ▸ member), unseen other (List.mem_append_left _ member)⟩)
    obtain ⟨visited, same, ran⟩ := ih onceRest
      (fun other member => unlinked other (List.mem_append_right _ (List.mem_cons_of_mem _ member)))
      fuel between stack (fun other member => by
        rw [sameInside, List.mem_cons]
        rintro (inInside | rfl | old)
        · exact apart other inInside other (List.mem_cons_of_mem _ member) rfl
        · exact notMore member
        · exact unseen other (List.mem_append_right _ (List.mem_cons_of_mem _ member)) old)
    refine ⟨visited, fun other => ?_, ?_⟩
    · rw [same, sameInside, List.mem_append, List.mem_cons, List.mem_cons]
      grind
    · rw [weight_append, weight_cons found, List.length_cons, show fuel + (vs.length + 1) +
        (weight s.graph inside + (node.values.length + weight s.graph more)) =
          fuel + vs.length + weight s.graph more + node.values.length + weight s.graph inside + 1 by
            omega, List.cons_append, resolveAll_node load _ _
              (unseen id (by simp)) (unlinked id (by simp)) found, ranInside, ran]

/-! ## A tree with a probe -/

/-- The key of the probe, a part of a document in which something refers. -/
def probeKey : String := "x-probe"

/-- The text of the reference in the probe. -/
def probeText : String := "#/x-probe/a"

/-- The containers of the probe, from a number on: an empty mapping, a mapping that refers to it, and
the mapping that holds both. -/
def probeNodes (start : Nat) : List Node :=
  [.mapping [], .mapping [(.str Schema.refKey, .str probeText)],
    .mapping [(.str "a", .node start), (.str "b", .node (start + 1))]]

/-- The root of a document with the probe behind its other entries. -/
def probeRoot (start : Nat) (entries : Entries) : Node :=
  .mapping (entries ++ [(.str probeKey, .node (start + 2))])

/-- A graph of containers with further ones after them. -/
def listed (nodes more : List Node) : Graph :=
  ⟨(nodes ++ more).toArray⟩

/-- Containers with the probe and the root after them. -/
def withProbe (nodes : List Node) (entries : Entries) : Graph :=
  listed nodes (probeNodes nodes.length ++ [probeRoot nodes.length entries])

/-- What is known of a tree with a probe when its copy has been taken in. -/
def takenIn (nodes : List Node) (entries : Entries) : Linking where
  graph := withProbe nodes entries
  links := [(nodes.length + 1, ⟨"", probeText⟩)]
  documents := [("", .node (nodes.length + 3))]

/-- What is known when the target of the probe's reference has been found. -/
def resolved (nodes : List Node) (entries : Entries) : Linking :=
  { takenIn nodes entries with targets := [(nodes.length + 1, .node nodes.length)] }

/-- Containers with the probe and the root after them, the target of the reference in its place. -/
def linkedProbe (nodes : List Node) (entries : Entries) : Graph :=
  listed nodes [.mapping [], .mapping [(.str Schema.refKey, .str probeText)],
    .mapping [(.str "a", .node nodes.length), (.str "b", .node nodes.length)],
    probeRoot nodes.length entries]

/-- Whether a container has no entry for a reference. -/
def IsPlain (node : Node) : Prop :=
  ∀ entries, node = .mapping entries → entries.has Schema.refKey = false

theorem field?_of_isPlain {g : Graph} {id : Nat} {node : Node} (found : g.get? id = some node)
    (plain : IsPlain node) : g.field? (.node id) Schema.refKey = none := by
  rw [Graph.field?, Graph.entries?, Graph.node?, found]
  cases node with
  | sequence items => rfl
  | mapping entries =>
    have lacks := plain entries rfl
    rwa [Entries.has, Option.isSome_eq_false_iff, Option.isNone_iff_eq_none] at lacks

theorem foldl_copying_of_plain {source : Graph} {r : Nat → Nat} {nodes : List Node}
    (plain : ∀ node ∈ nodes, IsPlain node) (s : Graph × List Nat) :
    nodes.foldl (copying source r).put s = (⟨s.1.nodes ++ nodes.toArray⟩, s.2) := by
  have found : (nodes.foldl (copying source r).put s).2 = s.2 := by
    induction nodes generalizing s with
    | nil => rfl
    | cons node nodes ih =>
      rw [List.foldl_cons, ih fun other member => plain other (List.mem_cons_of_mem _ member)]
      cases node with
      | sequence items => rfl
      | mapping entries => simp [copying, plain _ List.mem_cons_self entries rfl]
  exact Prod.ext ((copying source r).graph_foldl nodes s) found

/-- The containers of a probe are met from the inside to the load. -/
theorem forest_probe {g : Graph} {start : Nat}
    (found : ∀ place < 3, g.get? (start + place) = (probeNodes start)[place]?) :
    Forest g 999 [.node (start + 2)] [start, start + 1, start + 2] :=
  .node (found 2 (by omega)) ⟨by simp, List.pairwise_pair.2 rfl⟩
    (.node (found 0 (by omega)) ⟨by simp, .nil⟩ .nil
      (.node (found 1 (by omega)) ⟨by simp, List.pairwise_singleton _ _⟩ (.scalar rfl .nil) .nil))
    .nil

section

variable {start : Nat} {entries : Entries}

theorem keys_probeRoot (keys : (Node.mapping entries).HasTextKeys)
    (lacks : entries.has probeKey = false) : (probeRoot start entries).HasTextKeys := by
  refine ⟨fun entry member => ?_, ?_⟩
  · rcases List.mem_append.1 member with own | probe
    · exact keys.1 entry own
    · rw [List.mem_singleton.1 probe]
      exact ⟨_, rfl⟩
  · rw [Entries.Distinct, List.pairwise_append]
    refine ⟨keys.2, List.pairwise_singleton _ _, fun own member probe isProbe => ?_⟩
    rw [List.mem_singleton.1 isProbe]
    have other := Entries.has_eq_false_iff.1 lacks own member
    rw [← Bool.not_eq_true, Scalar.sameKey_str]
    exact other

theorem plain_probeRoot (plain : entries.has Schema.refKey = false) :
    IsPlain (probeRoot start entries) := by
  intro all same
  cases same
  refine Entries.has_eq_false_iff.2 fun entry member => ?_
  rcases List.mem_append.1 member with own | probe
  · exact Entries.has_eq_false_iff.1 plain entry own
  · rw [List.mem_singleton.1 probe]
    exact show Scalar.str probeKey ≠ .str Schema.refKey by decide

end

section

variable {nodes : List Node} {entries : Entries}

theorem get?_listed_of_lt {more : List Node} {id : Nat} (bound : id < nodes.length) :
    (listed nodes more).get? id = nodes[id]? := by
  simp [listed, Graph.get?, List.getElem?_append_left, bound]

theorem get?_listed {more : List Node} (place : Nat) :
    (listed nodes more).get? (nodes.length + place) = more[place]? := by
  rw [listed, Graph.get?, List.getElem?_toArray, List.getElem?_append_right (by omega),
    Nat.add_sub_cancel_left]

theorem size_listed (nodes more : List Node) :
    (listed nodes more).size = nodes.length + more.length := by
  simp [listed, Graph.size]

/-- A container of such a graph is one of those in front or a further one. -/
theorem listed_cases {more : List Node} {id : Nat} {node : Node}
    (found : (listed nodes more).get? id = some node) :
    nodes[id]? = some node ∨ ∃ place, id = nodes.length + place ∧ more[place]? = some node := by
  by_cases bound : id < nodes.length
  · exact .inl ((get?_listed_of_lt bound).symm.trans found)
  · obtain ⟨place, rfl⟩ := Nat.exists_eq_add_of_le (Nat.le_of_not_lt bound)
    exact .inr ⟨place, rfl, (get?_listed place).symm.trans found⟩

theorem get?_withProbe_of_lt {id : Nat} (bound : id < nodes.length) :
    (withProbe nodes entries).get? id = nodes[id]? :=
  get?_listed_of_lt bound

theorem get?_withProbe (place : Nat) : (withProbe nodes entries).get? (nodes.length + place) =
    (probeNodes nodes.length ++ [probeRoot nodes.length entries])[place]? :=
  get?_listed place

theorem size_withProbe : (withProbe nodes entries).size = nodes.length + 4 :=
  size_listed _ _

/-- Containers in the order in which they are met, each after those inside it, and the entries of the
root that holds them. There are no references, and no entry is in the way of the probe. -/
structure Written (nodes : List Node) (entries : Entries) : Prop where
  values : Forest ⟨nodes.toArray⟩ nodes.length (entries.map (·.2)) (List.range nodes.length)
  keys : (Node.mapping entries).HasTextKeys
  plain : ∀ node ∈ nodes, IsPlain node
  rootPlain : entries.has Schema.refKey = false
  lacks : entries.has probeKey = false

/-- Containers that nest no deeper and hold no more than the linker at hand allows for with a
probe. -/
structure Fits (nodes : List Node) (entries : Entries) : Prop where
  shallow : Forest ⟨nodes.toArray⟩ 999 (entries.map (·.2)) (List.range nodes.length)
  room : entries.length + weight ⟨nodes.toArray⟩ (List.range nodes.length) + 5 ≤ maxVisits

namespace Written

variable (written : Written nodes entries)
include written

/-- What a listed container is like. -/
theorem of_getElem? {id : Nat} {node : Node} (found : nodes[id]? = some node) :
    node.HasTextKeys ∧ ∀ child ∈ node.successors, child < nodes.length := by
  obtain ⟨bound, same⟩ := List.getElem?_eq_some_iff.1 found
  obtain ⟨other, there, keys, closed⟩ := written.values.exists_node (List.mem_range.2 bound)
  obtain rfl : node = other := by
    rw [← same]
    simpa [Graph.get?, bound] using there
  exact ⟨keys, fun child held => List.mem_range.1 (closed child held)⟩

theorem lt_of_root {child : Nat} (held : child ∈ (Node.mapping entries).successors) :
    child < nodes.length := by
  exact List.mem_range.1 (written.values.mem_of_head (Node.mem_successors_iff.1 held))

theorem of_probeRoot {child : Nat} (held : child ∈ (probeRoot nodes.length entries).successors) :
    child < nodes.length ∨ child = nodes.length + 2 := by
  rw [probeRoot, Node.successors, Node.values, List.map_append, List.filterMap_append] at held
  rcases List.mem_append.1 held with own | probe
  · exact .inl (written.lt_of_root own)
  · exact .inr (List.mem_singleton.1 probe)

omit written in
theorem values_withProbe (fits : Fits nodes entries) :
    Forest (withProbe nodes entries) 999 (entries.map (·.2)) (List.range nodes.length) := by
  refine fits.shallow.congr fun id member => ?_
  rw [get?_withProbe_of_lt (List.mem_range.1 member)]
  simp [Graph.get?]

theorem forest (fits : Fits nodes entries) :
    Forest (withProbe nodes entries) maxDepth [.node (nodes.length + 3)]
      (List.range (nodes.length + 4)) := by
  have order : List.range (nodes.length + 4) = (List.range nodes.length ++
      [nodes.length, nodes.length + 1, nodes.length + 2]) ++ [nodes.length + 3] := by
    simp [List.range_succ]
  rw [order]
  refine .node (get?_withProbe 3) (keys_probeRoot written.keys written.lacks) ?_ .nil
  rw [probeRoot, Node.values, List.map_append]
  refine (values_withProbe fits).append (forest_probe fun place small => ?_)
  rw [get?_withProbe, List.getElem?_append_left (by simpa [probeNodes] using small)]

/-- Copying a tree with a probe leaves it as it is and notes its one reference. -/
theorem copyTree_withProbe (fits : Fits nodes entries) :
    copyTree (withProbe nodes entries) maxDepth (.empty, []) (.node (nodes.length + 3)) =
      .ok ((withProbe nodes entries, [nodes.length + 1]), .node (nodes.length + 3)) := by
  have counts : Counts id (List.range (nodes.length + 4)) 0 := by
    intro place number held
    rw [List.getElem?_range (by simpa using (List.getElem?_eq_some_iff.1 held).1)] at held
    cases held
    rw [id_eq, Nat.zero_add]
  have copied := copyTree_of_forest (written.forest fits) List.nodup_range (Nat.le_refl _) counts
  have order : moved (withProbe nodes entries) id (List.range (nodes.length + 4)) =
      nodes ++ (probeNodes nodes.length ++ [probeRoot nodes.length entries]) := by
    rw [← @size_withProbe nodes entries, moved_range, withProbe, listed]
  have graph := (copying (withProbe nodes entries) id).graph_foldl
    (nodes ++ (probeNodes nodes.length ++ [probeRoot nodes.length entries])) (.empty, [])
  have found : ((nodes ++ (probeNodes nodes.length ++ [probeRoot nodes.length entries])).foldl
      (copying (withProbe nodes entries) id).put (.empty, [])).2 = [nodes.length + 1] := by
    rw [List.foldl_append, foldl_copying_of_plain written.plain, List.foldl_append]
    have last := @plain_probeRoot nodes.length entries written.rootPlain _ rfl
    simp [probeNodes, probeRoot, copying, Graph.add, Graph.size, Graph.empty, last]
    rfl
  rw [copied, order, Value.renumber_id]
  refine congrArg Except.ok (Prod.ext (Prod.ext (graph.trans ?_) found) rfl)
  simp [copying, withProbe, listed, Graph.empty]

theorem takeIn_withProbe (fits : Fits nodes entries) (resolve : Nat → LinkM m Value) :
    (takeIn resolve "" ⟨withProbe nodes entries, .node (nodes.length + 3)⟩).run {} =
      (pure (.node (nodes.length + 3), takenIn nodes entries) : ExceptT Error m _) := by
  have base : Uri.withoutFragment "".toList = .ok ([], []) := rfl
  have key : Uri.canonical (String.ofList []).toList = .ok [] := rfl
  have held : (withProbe nodes entries).field? (.node (nodes.length + 1)) Schema.refKey =
      some (.scalar (.str probeText)) := by
    rw [Graph.field?, Graph.entries?_of_get? (get?_withProbe 1)]
    rfl
  unfold takeIn
  rw [base]
  simp only [ofAddress, pure_bind, StateT.run_bind, StateT.run_get]
  rw [written.copyTree_withProbe fits]
  simp only [StateT.run_bind, StateT.run_modify, StateT.run_get, StateT.run_pure, pure_bind, noteLinks,
    noteLink, held, key, List.isEmpty_nil, if_true]
  rfl

/-- From the root the first key of the probe's pointer leads to the probe. -/
theorem stepInto_root : stepInto (withProbe nodes entries) (.node (nodes.length + 3)) "x-probe" =
    some (.node (nodes.length + 2)) := by
  simp only [stepInto, get?_withProbe 3]
  exact Entries.get?_append_of_lacks written.lacks _

omit written in
/-- In the probe the other key leads to the empty mapping. -/
theorem stepInto_probe : stepInto (withProbe nodes entries) (.node (nodes.length + 2)) "a" =
    some (.node nodes.length) := by
  simp only [stepInto, get?_withProbe 2]
  rfl

theorem target_withProbe : (target load maxDepth [] (nodes.length + 1)).run
      (takenIn nodes entries) =
    pure (.node nodes.length, resolved nodes entries) := by
  have full : Uri.join "".toList probeText.toList = .ok probeText.toList := rfl
  have parts : Uri.withoutFragment probeText.toList = .ok ([], "/x-probe/a".toList) := rfl
  have key : Uri.canonical [] = .ok [] := rfl
  have segments : fragmentSegments "/x-probe/a".toList = ["x-probe", "a"] := rfl
  have found : (takenIn nodes entries).target? (nodes.length + 1) = none := rfl
  have link : (takenIn nodes entries).link? (nodes.length + 1) = some ⟨"", probeText⟩ := by
    simp [takenIn, Linking.link?]
  have document : (takenIn nodes entries).document? (String.ofList []) =
      some (.node (nodes.length + 3)) := rfl
  have reference : ∀ place, place ≠ 1 →
      (takenIn nodes entries).reference? (.node (nodes.length + place)) = none := by
    intro place other
    simp [takenIn, Linking.reference?, Linking.link?, other.symm]
  have graph : (takenIn nodes entries).graph = withProbe nodes entries := rfl
  have other : Value.node nodes.length ≠ .node (nodes.length + 1) := by simp
  rw [show maxDepth = 999 + 1 from rfl, target]
  simp only [StateT.run_bind, StateT.run_get, pure_bind, found, link, List.contains_nil,
    Bool.false_eq_true, if_false, full, ofAddress, parts, key, document, segments, StateT.run_pure,
    walkPointer, reference 3 (by decide), reference 2 (by decide), graph, written.stepInto_root,
    stepInto_probe,
    if_neg other, show (takenIn nodes entries).reference? (.node nodes.length) = none from
      reference 0 (by decide), StateT.run_modify]
  rfl

omit written in
theorem weight_withProbe : weight (withProbe nodes entries) (List.range nodes.length) =
    weight ⟨nodes.toArray⟩ (List.range nodes.length) := by
  refine congrArg List.length (List.flatMap_congr fun id member => ?_)
  rw [get?_withProbe_of_lt (List.mem_range.1 member)]
  simp [Graph.get?]

omit written in
theorem link?_takenIn {id : Nat} (other : id ≠ nodes.length + 1) :
    (takenIn nodes entries).link? id = none := by
  simp [takenIn, Linking.link?, other.symm]

/-- Visiting the probe finds the target of its reference. -/
theorem resolveAll_probe (fuel : Nat) {seen : List Nat}
    (unseen : ∀ place < 3, nodes.length + place ∉ seen) :
    (resolveAll load (fuel + 4) seen [.node (nodes.length + 2)]).run (takenIn nodes entries) =
      pure ((), resolved nodes entries) := by
  have link : (takenIn nodes entries).link? (nodes.length + 1) = some ⟨"", probeText⟩ := by
    simp [takenIn, Linking.link?]
  have inside : (resolved nodes entries).inside (.node nodes.length) = [] := by
    rw [Linking.inside, show (resolved nodes entries).graph = withProbe nodes entries from rfl,
      ← Nat.add_zero nodes.length, get?_withProbe 0]
    rfl
  have reference : (nodes.length :: (nodes.length + 2) :: seen).contains (nodes.length + 1) =
      false := by
    have last := unseen 1 (by omega)
    simpa using last
  have target : nodes.length ∉ (nodes.length + 2) :: seen := by
    rw [List.mem_cons, not_or]
    exact ⟨by omega, unseen 0 (by omega)⟩
  rw [resolveAll_node load (fuel + 3) _ (unseen 2 (by omega)) (link?_takenIn (by omega))
    (get?_withProbe 2)]
  change (resolveAll load (fuel + 3) _ [.node nodes.length, .node (nodes.length + 1)]).run _ = _
  rw [resolveAll_node load (fuel + 2) _ target (link?_takenIn (by omega)) (get?_withProbe 0)]
  change (resolveAll load (fuel + 2) _ [.node (nodes.length + 1)]).run _ = _
  rw [resolveAll, reference]
  simp only [Bool.false_eq_true, if_false, StateT.run_bind, StateT.run_get, pure_bind, link,
    written.target_withProbe load, inside, List.append_nil]
  rw [resolveAll]
  rfl

/-- All references of a tree with a probe are resolved, and there is but one. -/
theorem resolveAll_withProbe (fits : Fits nodes entries) :
    (resolveAll load maxVisits [] [.node (nodes.length + 3)]).run (takenIn nodes entries) =
      pure ((), resolved nodes entries) := by
  have room := fits.room
  obtain ⟨spare, enough⟩ : ∃ spare, maxVisits = spare + 4 + (entries.map (·.2)).length +
      weight (takenIn nodes entries).graph (List.range nodes.length) + 1 := by
    refine ⟨maxVisits - (entries.length + weight ⟨nodes.toArray⟩ (List.range nodes.length) + 5), ?_⟩
    rw [List.length_map, takenIn, weight_withProbe]
    omega
  have held : (probeRoot nodes.length entries).values ++ [] =
      entries.map (·.2) ++ [.node (nodes.length + 2)] := by
    simp [probeRoot, Node.values]
  obtain ⟨visited, same, ran⟩ := resolveAll_of_forest load
    (show Forest (takenIn nodes entries).graph 999 _ _ from values_withProbe fits)
    List.nodup_range (fun id member => link?_takenIn (by
      have bound := List.mem_range.1 member
      omega)) (spare + 4) [nodes.length + 3] [.node (nodes.length + 2)] (fun id member => by
        have bound := List.mem_range.1 member
        simp only [List.mem_singleton]
        omega)
  rw [enough, resolveAll_node load _ _ List.not_mem_nil (link?_takenIn (by omega))
    (get?_withProbe 3), held, ran]
  refine written.resolveAll_probe load spare fun place small => ?_
  rw [same, List.mem_range, List.mem_singleton]
  omega

/-! ## The outcome -/

omit written in
theorem linked_of_ne {v : Value} (other : v ≠ .node (nodes.length + 1)) :
    (resolved nodes entries).linked v = v := by
  cases v with
  | scalar s => rfl
  | node id =>
    have different : nodes.length + 1 ≠ id := fun same => other (congrArg Value.node same.symm)
    simp [resolved, Linking.linked, Linking.target?, different]

omit written in
/-- A container that does not hold the reference stays as it is. -/
theorem linkedNode_of_not_mem {node : Node} (apart : nodes.length + 1 ∉ node.successors) :
    (resolved nodes entries).linkedNode node = node := by
  have each : ∀ v ∈ node.values, (resolved nodes entries).linked v = v := fun v member =>
    linked_of_ne fun same => apart (Node.mem_successors_iff.2 (same ▸ member))
  cases node with
  | sequence items =>
    exact congrArg Node.sequence ((List.map_congr_left each).trans (List.map_id' items))
  | mapping all =>
    refine congrArg Node.mapping ((List.map_congr_left fun entry member => ?_).trans
      (List.map_id' all))
    exact Prod.ext rfl (each entry.2 (List.mem_map_of_mem member))

theorem map_linkedNode : (withProbe nodes entries).nodes.map (resolved nodes entries).linkedNode =
    (linkedProbe nodes entries).nodes := by
  have others : nodes.map (resolved nodes entries).linkedNode = nodes := by
    refine (List.map_congr_left fun node member => ?_).trans (List.map_id' nodes)
    obtain ⟨id, found⟩ := List.mem_iff_getElem?.1 member
    refine linkedNode_of_not_mem fun held => ?_
    have small := (written.of_getElem? found).2 _ held
    omega
  have root : (resolved nodes entries).linkedNode (probeRoot nodes.length entries) =
      probeRoot nodes.length entries := by
    refine linkedNode_of_not_mem fun held => ?_
    rcases written.of_probeRoot held with own | probe
    · omega
    · omega
  have reference : (resolved nodes entries).linked (.node (nodes.length + 1)) =
      .node nodes.length := by
    simp [resolved, Linking.linked, Linking.target?]
  have target : (resolved nodes entries).linked (.node nodes.length) = .node nodes.length :=
    linked_of_ne (by simp)
  simp only [withProbe, linkedProbe, listed, List.map_toArray, List.map_append, others, probeNodes,
    List.map_cons, List.map_nil, root, List.cons_append, List.nil_append]
  simp only [Linking.linkedNode, List.map_cons, List.map_nil, reference, target]
  rfl

/-- Of the containers of a tree with a probe only one is a reference. -/
theorem plain_of_get? {id : Nat} {node : Node}
    (found : (withProbe nodes entries).get? id = some node) (other : id ≠ nodes.length + 1) :
    IsPlain node := by
  rcases listed_cases found with early | ⟨place, rfl, later⟩
  · exact written.plain node (List.mem_of_getElem? early)
  · match place, later with
    | 0, later =>
      cases later
      exact fun _ same => by cases same; rfl
    | 1, _ => exact absurd rfl other
    | 2, later =>
      cases later
      exact fun _ same => by cases same; rfl
    | 3, later =>
      cases later
      exact plain_probeRoot written.rootPlain

/-- What the containers of a tree with a probe refer to is what linking finds. -/
theorem target?_withProbe (id : Nat) :
    target? ⟨withProbe nodes entries, .node (nodes.length + 3)⟩ id =
      (resolved nodes entries).target? id := by
  by_cases reference : id = nodes.length + 1
  · have held : (withProbe nodes entries).field? (.node (nodes.length + 1)) Schema.refKey =
        some (.scalar (.str probeText)) := by
      rw [Graph.field?, Graph.entries?_of_get? (get?_withProbe 1)]
      rfl
    have segments : fragmentSegments "/x-probe/a".toList = ["x-probe", "a"] := rfl
    rw [reference, target?, held]
    change (fragmentSegments "/x-probe/a".toList).foldlM (stepInto (withProbe nodes entries)) _ = _
    rw [segments, List.foldlM_cons, written.stepInto_root, Option.bind_eq_bind, Option.bind_some,
      List.foldlM_cons, stepInto_probe]
    simp [resolved, Linking.target?]
  · have unfound : (resolved nodes entries).target? id = none := by
      simp [resolved, Linking.target?, Ne.symm reference]
    have unread : (withProbe nodes entries).field? (.node id) Schema.refKey = none := by
      cases found : (withProbe nodes entries).get? id with
      | none =>
        rw [Graph.field?, Graph.entries?, Graph.node?, found]
        rfl
      | some node => exact field?_of_isPlain found (written.plain_of_get? found reference)
    rw [target?, unread, unfound]

/-- Replacing the references of a tree with a probe puts the empty mapping in place of the probe's
reference. -/
theorem replaced_withProbe : replaced ⟨withProbe nodes entries, .node (nodes.length + 3)⟩ =
    ⟨linkedProbe nodes entries, .node (nodes.length + 3)⟩ := by
  have same : replacement ⟨withProbe nodes entries, .node (nodes.length + 3)⟩ =
      (resolved nodes entries).linked := by
    funext v
    cases v with
    | scalar s => rfl
    | node id => rw [replacement, written.target?_withProbe, Linking.linked]
  have nodeWise : Node.mapValues (resolved nodes entries).linked =
      (resolved nodes entries).linkedNode := by
    funext node
    cases node <;> rfl
  have root : (resolved nodes entries).linked (.node (nodes.length + 3)) =
      .node (nodes.length + 3) := linked_of_ne (by simp)
  rw [replaced, same, nodeWise, written.map_linkedNode, root]

/-- Linking a tree with a probe puts the target in place of the reference. -/
theorem link_withProbe (fits : Fits nodes entries) : link load "" ⟨withProbe nodes entries, .node (nodes.length + 3)⟩ =
    (pure ⟨linkedProbe nodes entries, .node (nodes.length + 3)⟩ : Loading m Document) := by
  have root : (resolved nodes entries).linked (.node (nodes.length + 3)) =
      .node (nodes.length + 3) := linked_of_ne (by simp)
  unfold link
  simp only [StateT.run_bind, written.takeIn_withProbe fits, pure_bind,
    written.resolveAll_withProbe load fits, StateT.run_pure, root]
  rw [show (resolved nodes entries).graph = withProbe nodes entries from rfl,
    written.map_linkedNode]

end Written

end

end Reference

end Typewright
