import Typewright.Proofs.Json.Trees
import Typewright.Proofs.Reference.Probe
import Typewright.World.Simulated

/-!
# The two ways to the containers of a description

A description without references is used as it is, and any other one is detached and given to a linker
that replaces its references. If a description that JSON could have said gets an entry in which
something refers, it takes the second way, and the models and endpoints stay as they are for any
linker that does what it should (`Reference.dereference_probed`). The linker at hand does where the
description is not too deep or too large for it (`Reference.replaces_link`).

Detaching lists the containers in the order in which they are met. The description as it is stands
beside the linked one under other numbers (`Reference.Laid.copies_fresh`). A description with scalars
that JSON does not have can only be used as it is.
-/

namespace Typewright

namespace Reference

open Typewright.Graph

/-! ## Detached descriptions -/

/-- A graph with the probe in it, under a further key of a mapping. -/
def probedGraph (g : Graph) (root : Nat) (entries : Entries) : Graph :=
  ⟨(g.set root (probeRoot g.size entries)).nodes ++ (probeNodes g.size).toArray⟩

/-- A description with the probe under a further key at its top. -/
def probed (document : Document) : Document :=
  match document.root, document.graph.entries? document.root with
  | .node root, some entries => ⟨probedGraph document.graph root entries, .node root⟩
  | _, _ => document

/-- A mapping with the containers inside it in the order in which they are met, each after those
inside it. There are no references, and no entry is in the way of the probe. -/
structure Laid (g : Graph) (root : Nat) (entries : Entries) (ids : List Nat) : Prop where
  found : g.get? root = some (.mapping entries)
  keys : (Node.mapping entries).HasTextKeys
  values : Forest g ids.length (entries.map (·.2)) ids
  nodup : (ids ++ [root]).Nodup
  plain : ∀ id ∈ ids ++ [root], g.hasField Schema.refKey id = false
  lacks : entries.has probeKey = false

/-- The numbers of containers in a graph with the probe, in the order in which they are met. -/
def probedOrder (g : Graph) (root : Nat) (ids : List Nat) : List Nat :=
  ids ++ [g.size, g.size + 1, g.size + 2] ++ [root]

/-- The place of a container among those of a graph with the probe. -/
def placeOf (g : Graph) (root : Nat) (ids : List Nat) (id : Nat) : Nat :=
  (probedOrder g root ids).idxOf id

namespace Laid

variable {g : Graph} {root : Nat} {entries : Entries} {ids : List Nat}
variable (laid : Laid g root entries ids)
include laid

theorem root_not_mem : root ∉ ids := by
  obtain ⟨_, _, apart⟩ := List.nodup_append.1 laid.nodup
  exact fun member => apart root member root List.mem_cons_self rfl

theorem root_lt : root < g.size :=
  lt_size_of_get? laid.found

theorem lt_size {id : Nat} (member : id ∈ ids) : id < g.size :=
  laid.values.lt_size member

/-! ### With the probe -/

omit laid in
theorem size_set (node : Node) : (g.set root node).nodes.size = g.size :=
  Array.size_setIfInBounds

omit laid in
theorem get?_probedGraph (place : Nat) :
    (probedGraph g root entries).get? (g.size + place) = (probeNodes g.size)[place]? := by
  rw [probedGraph, Graph.get?, Array.getElem?_append_right (by rw [size_set]; omega), size_set,
    Nat.add_sub_cancel_left, List.getElem?_toArray]

omit laid in
theorem get?_probedGraph_of_lt {id : Nat} (bound : id < g.size) :
    (probedGraph g root entries).get? id = (g.set root (probeRoot g.size entries)).get? id :=
  Array.getElem?_append_left (by rw [size_set]; exact bound)

theorem get?_probedGraph_root :
    (probedGraph g root entries).get? root = some (probeRoot g.size entries) := by
  rw [get?_probedGraph_of_lt laid.root_lt]
  exact Array.getElem?_setIfInBounds_self_of_lt laid.root_lt

theorem get?_probedGraph_of_mem {id : Nat} (member : id ∈ ids) :
    (probedGraph g root entries).get? id = g.get? id := by
  rw [get?_probedGraph_of_lt (laid.lt_size member)]
  exact Array.getElem?_setIfInBounds_ne (ne_of_mem_of_not_mem member laid.root_not_mem).symm

theorem forest_probedGraph : Forest (probedGraph g root entries) (max ids.length 999 + 1)
    [.node root] (probedOrder g root ids) := by
  have own : Forest (probedGraph g root entries) ids.length (entries.map (·.2)) ids :=
    laid.values.congr fun id member => laid.get?_probedGraph_of_mem member
  have probe : Forest (probedGraph g root entries) 999 [.node (g.size + 2)]
      [g.size, g.size + 1, g.size + 2] :=
    forest_probe fun place small => get?_probedGraph place
  refine .node laid.get?_probedGraph_root (keys_probeRoot laid.keys laid.lacks) ?_ .nil
  rw [probeRoot, Node.values, List.map_append]
  exact (own.mono (le_max_left _ _)).append (probe.mono (le_max_right _ _))

theorem nodup_probedOrder : (probedOrder g root ids).Nodup := by
  obtain ⟨once, _, _⟩ := List.nodup_append.1 laid.nodup
  have top := laid.root_lt
  rw [probedOrder, List.append_assoc, List.nodup_append]
  refine ⟨once, ?_, fun id member other added same => ?_⟩
  · simp only [List.cons_append, List.nil_append, List.nodup_cons, List.mem_cons, List.not_mem_nil,
      or_false, not_or, not_false_eq_true, List.nodup_nil, and_true]
    omega
  · have bound := laid.lt_size member
    have apart := ne_of_mem_of_not_mem member laid.root_not_mem
    simp only [List.cons_append, List.nil_append, List.mem_cons, List.not_mem_nil, or_false] at added
    omega

theorem counts_placeOf : Counts (placeOf g root ids) (probedOrder g root ids) 0 :=
  counts_idxOf laid.nodup_probedOrder

/-- The containers of the description come first, then those of the probe, and the root last. -/
theorem placeOf_spec : Counts (placeOf g root ids) ids 0 ∧
    (∀ place < 3, placeOf g root ids (g.size + place) = ids.length + place) ∧
    placeOf g root ids root = ids.length + 3 := by
  have counts := laid.counts_placeOf
  rw [probedOrder, List.append_assoc] at counts
  obtain ⟨own, others⟩ := counts.append
  obtain ⟨probe, last⟩ := others.append
  rw [Nat.zero_add] at probe last
  refine ⟨own, fun place small => ?_, last 0 root rfl⟩
  refine probe place (g.size + place) ?_
  match place with
  | 0 | 1 | 2 => rfl

theorem moved_probedOrder : moved (probedGraph g root entries) (placeOf g root ids)
      (probedOrder g root ids) =
    moved g (placeOf g root ids) ids ++ (probeNodes ids.length ++
      [probeRoot ids.length (entries.renumber (placeOf g root ids))]) := by
  obtain ⟨_, probe, _⟩ := laid.placeOf_spec
  have own : moved (probedGraph g root entries) (placeOf g root ids) ids =
      moved g (placeOf g root ids) ids :=
    List.map_congr_left fun id member => by rw [laid.get?_probedGraph_of_mem member]
  have first : (probedGraph g root entries).get? g.size = some (.mapping []) := get?_probedGraph 0
  have second := probe 1 (by omega)
  rw [probedOrder, List.append_assoc, moved_append, own, List.append_cancel_left_eq,
    List.cons_append, moved_cons first, List.cons_append, moved_cons (get?_probedGraph 1),
    List.cons_append, moved_cons (get?_probedGraph 2), List.nil_append,
    moved_cons laid.get?_probedGraph_root]
  simp [moved, probeNodes, probeRoot, Node.renumber, Entries.renumber, probe 2 (by omega), second,
    show placeOf g root ids g.size = ids.length from probe 0 (by omega), Value.str]

theorem detach_probed : detach ⟨probedGraph g root entries, .node root⟩ =
    .ok ⟨withProbe (moved g (placeOf g root ids) ids) (entries.renumber (placeOf g root ids)),
      .node (ids.length + 3)⟩ := by
  obtain ⟨_, _, top⟩ := laid.placeOf_spec
  rw [detach_of_forest laid.forest_probedGraph laid.nodup_probedOrder laid.counts_placeOf,
    laid.moved_probedOrder, Value.renumber_node, top, withProbe, listed, moved, List.length_map]

theorem hasRefs_probed :
    Schema.hasRefs (probedGraph g root entries) (.node root) = true := by
  refine List.any_eq_true.2 ⟨g.size + 1, ?_, ?_⟩
  · rw [laid.forest_probedGraph.mem_reachable_iff, probedOrder]
    simp
  · rw [hasField, field?, entries?_of_get? (get?_probedGraph 1)]
    rfl

/-! ### The containers that are met -/

theorem getElem?_moved {place id : Nat} (held : ids[place]? = some id) :
    (moved g (placeOf g root ids) ids)[place]? =
      (g.get? id).map (Node.renumber (placeOf g root ids)) := by
  obtain ⟨node, found, _⟩ := laid.values.exists_node (List.mem_of_getElem? held)
  rw [moved, List.getElem?_map, held, Option.map_some, found]
  rfl

/-- A container that is met stands in its place. -/
theorem get?_moved {id : Nat} (member : id ∈ ids) :
    (⟨(moved g (placeOf g root ids) ids).toArray⟩ : Graph).get? (placeOf g root ids id) =
      (g.get? id).map (Node.renumber (placeOf g root ids)) := by
  obtain ⟨place, held⟩ := List.mem_iff_getElem?.1 member
  rw [laid.placeOf_spec.1 place id held, Nat.zero_add, Graph.get?, List.getElem?_toArray,
    laid.getElem?_moved held]

theorem map_placeOf : ids.map (placeOf g root ids) =
    List.range (moved g (placeOf g root ids) ids).length := by
  refine List.ext_getElem? fun place => ?_
  rw [List.getElem?_map, moved, List.length_map]
  cases held : ids[place]? with
  | none =>
    have outside := List.getElem?_eq_none_iff.1 held
    rw [List.getElem?_eq_none (by simpa using outside)]
    rfl
  | some id =>
    rw [List.getElem?_range (List.getElem?_eq_some_iff.1 held).1, Option.map_some,
      laid.placeOf_spec.1 place id held, Nat.zero_add]

theorem weight_moved : weight ⟨(moved g (placeOf g root ids) ids).toArray⟩
      (List.range (moved g (placeOf g root ids) ids).length) = weight g ids := by
  rw [← laid.map_placeOf, weight, weight, List.flatMap_map, List.length_flatMap, List.length_flatMap]
  refine congrArg List.sum (List.map_congr_left fun id member => ?_)
  rw [laid.get?_moved member]
  cases g.get? id with
  | none => rfl
  | some node => simp [Node.values_renumber]

theorem plain_moved {id : Nat} {node : Node} (member : id ∈ ids ++ [root])
    (found : g.get? id = some node) : IsPlain (node.renumber (placeOf g root ids)) := by
  intro all same
  have plain := laid.plain id member
  rw [hasField, field?, entries?, Graph.node?, found] at plain
  cases node with
  | sequence items => cases same
  | mapping entries =>
    cases same
    rw [Entries.has_renumber]
    exact plain

theorem values_moved {depth : Nat} (values : Forest g depth (entries.map (·.2)) ids) :
    Forest ⟨(moved g (placeOf g root ids) ids).toArray⟩ depth
      ((entries.renumber (placeOf g root ids)).map (·.2))
      (List.range (moved g (placeOf g root ids) ids).length) := by
  have there := values.renumber fun id member => laid.get?_moved member
  rwa [laid.map_placeOf, show (entries.map (·.2)).map _ = _ from
    (Node.values_renumber (.mapping entries) (placeOf g root ids)).symm] at there

theorem written : Written (moved g (placeOf g root ids) ids)
    (entries.renumber (placeOf g root ids)) := by
  constructor
  · have values := laid.values_moved laid.values
    rwa [show ids.length = (moved g (placeOf g root ids) ids).length from
      (List.length_map _).symm] at values
  · exact laid.keys.renumber _
  · intro node member
    obtain ⟨id, listed, rfl⟩ := List.mem_map.1 member
    obtain ⟨node, found, _⟩ := laid.values.exists_node listed
    rw [found]
    exact laid.plain_moved (List.mem_append_left _ listed) found
  · exact laid.plain_moved (List.mem_append_right _ List.mem_cons_self) laid.found _ rfl
  · rw [Entries.has_renumber]
    exact laid.lacks

/-- A description that fits the linker at hand still does when its containers are in order. -/
theorem fits (shallow : Forest g 999 (entries.map (·.2)) ids)
    (room : entries.length + weight g ids + 5 ≤ maxVisits) :
    Fits (moved g (placeOf g root ids) ids) (entries.renumber (placeOf g root ids)) := by
  refine ⟨laid.values_moved shallow, ?_⟩
  rw [laid.weight_moved]
  simpa [Entries.renumber] using room

/-! ### Without the probe -/

/-- What the root leads to, with its entries in a fresh container. -/
theorem described_fresh :
    Api.Described (g.add (.mapping entries)).1 (ids ++ [g.size]) := by
  have keeps : g.Extends (g.add (.mapping entries)).1 := extends_add _ _
  obtain ⟨once, _, _⟩ := List.nodup_append.1 laid.nodup
  have cases_of_mem : ∀ id ∈ ids ++ [g.size], ∃ node, (g.add (.mapping entries)).1.get? id =
      some node ∧ node.HasTextKeys ∧ (∀ child ∈ node.successors, child ∈ ids) ∧
        (g.add (.mapping entries)).1.hasField Schema.refKey id = false := by
    intro id member
    rcases List.mem_append.1 member with early | last
    · obtain ⟨node, found, keys, closed⟩ := laid.values.exists_node early
      have plain := laid.plain id (List.mem_append_left _ early)
      rw [hasField, field?, entries?, Graph.node?, found] at plain
      refine ⟨node, keeps.found found, keys, closed, ?_⟩
      rw [hasField, field?, entries?, Graph.node?, keeps.found found, plain]
    · rw [List.mem_singleton.1 last]
      have plain := laid.plain root (List.mem_append_right _ List.mem_cons_self)
      rw [hasField, field?, entries?, Graph.node?, laid.found] at plain
      refine ⟨_, get?_add g _, laid.keys, fun child held => ?_, ?_⟩
      · exact laid.values.mem_of_head (Node.mem_successors_iff.1 held)
      · rw [hasField, field?, entries?, Graph.node?, get?_add, plain]
  refine ⟨⟨?_, fun id member => ?_⟩, fun id member all found => ?_, fun id member => ?_⟩
  · refine List.nodup_append.2 ⟨once, List.nodup_singleton _, fun id member other last => ?_⟩
    rw [List.mem_singleton.1 last]
    exact Nat.ne_of_lt (laid.lt_size member)
  · obtain ⟨node, found, _, closed, _⟩ := cases_of_mem id member
    exact ⟨node, found, fun child held => List.mem_append_left _ (closed child held)⟩
  · obtain ⟨node, there, keys, _⟩ := cases_of_mem id member
    obtain rfl : node = .mapping all := Option.some.inj (there.symm.trans found)
    exact keys.2
  · obtain ⟨_, _, _, _, plain⟩ := cases_of_mem id member
    exact plain

/-- The numbers of containers beside the linked description. -/
def freshPlace (g : Graph) (root : Nat) (ids : List Nat) (id : Nat) : Nat :=
  if id = g.size then ids.length + 4 else placeOf g root ids id

/-- What the root leads to stands beside the linked description. -/
theorem copies_fresh : (g.add (.mapping entries)).1.Copies
    (Written.bothRoots (moved g (placeOf g root ids) ids) (entries.renumber (placeOf g root ids)))
    (ids ++ [g.size]) (freshPlace g root ids) := by
  have length : (moved g (placeOf g root ids) ids).length = ids.length := List.length_map _
  have last : freshPlace g root ids g.size = ids.length + 4 := if_pos rfl
  have early {id : Nat} (member : id ∈ ids) : freshPlace g root ids id = placeOf g root ids id :=
    if_neg (Nat.ne_of_lt (laid.lt_size member))
  have bound {id : Nat} (member : id ∈ ids) : placeOf g root ids id < ids.length := by
    obtain ⟨place, held⟩ := List.mem_iff_getElem?.1 member
    rw [laid.placeOf_spec.1 place id held, Nat.zero_add]
    exact (List.getElem?_eq_some_iff.1 held).1
  constructor
  · intro a first b second same
    rcases List.mem_append.1 first with inside | top <;>
      rcases List.mem_append.1 second with inside' | top'
    · rw [early inside, early inside'] at same
      have listed : a ∈ probedOrder g root ids :=
        List.mem_append_left _ (List.mem_append_left _ inside)
      exact (List.idxOf_inj listed).1 same
    · rw [early inside, List.mem_singleton.1 top', last] at same
      have small := bound inside
      omega
    · rw [early inside', List.mem_singleton.1 top, last] at same
      have small := bound inside'
      omega
    · rw [List.mem_singleton.1 top, List.mem_singleton.1 top']
  · intro id member
    have moves {node : Node} (closed : ∀ child ∈ node.successors, child ∈ ids) :
        node.renumber (placeOf g root ids) = node.renumber (freshPlace g root ids) :=
      Node.renumber_congr fun child held => (early (closed child held)).symm
    rcases List.mem_append.1 member with inside | top
    · obtain ⟨node, found, _, closed⟩ := laid.values.exists_node inside
      obtain ⟨place, held⟩ := List.mem_iff_getElem?.1 inside
      have here : placeOf g root ids id = place := by
        rw [laid.placeOf_spec.1 place id held, Nat.zero_add]
      rw [early inside, Written.get?_bothRoots_of_lt (by rw [length]; exact bound inside), here,
        laid.getElem?_moved held, found, (extends_add g _).found found, Option.map_some,
        Option.map_some, moves closed]
    · rw [List.mem_singleton.1 top, last, ← length, Written.get?_bothRoots, get?_add]
      have closed : ∀ child ∈ (Node.mapping entries).successors, child ∈ ids := fun child held =>
        laid.values.mem_of_head (Node.mem_successors_iff.1 held)
      exact congrArg some (moves closed)

/-- A copy of the linked description has the models and endpoints of the description as it is. -/
theorem docs_of_isCopy {linked : Document}
    (copy : Document.IsCopy ⟨linkedProbe (moved g (placeOf g root ids) ids)
      (entries.renumber (placeOf g root ids)), .node (ids.length + 3)⟩ linked) :
    Api.docs linked.graph linked.root .builtin =
      Api.docs (g.add (.mapping entries)).1 (.node g.size) .builtin := by
  have length : (moved g (placeOf g root ids) ids).length = ids.length := List.length_map _
  have fresh := laid.described_fresh.docs_of_copies laid.copies_fresh
    (List.mem_append_right _ List.mem_cons_self)
  rw [← length] at copy
  rw [laid.written.docs_of_isCopy copy, ← fresh, freshPlace, if_pos rfl, length]

end Laid

/-! ## The two ways -/

/-- A document that JSON could have said. -/
def IsTree (document : Document) : Prop :=
  ∃ depth ids, Forest document.graph depth [document.root] ids ∧ ids.Nodup

/-- A JSON text is read as a tree. -/
theorem isTree_of_read {text : String} {document : Document}
    (read : Json.read? text = some document) : IsTree document :=
  Json.forest_of_read read

section

variable {document : Document} (tree : IsTree document)
  (isMapping : document.graph.isMapping document.root = true)
  (noRefs : Schema.hasRefs document.graph document.root = false)
  (lacks : document.graph.field? document.root probeKey = none)

include tree isMapping noRefs lacks

theorem exists_laid :
    ∃ root entries ids, document.root = .node root ∧ Laid document.graph root entries ids := by
  obtain ⟨g, top⟩ := document
  obtain ⟨depth, all, forest, nodup⟩ := tree
  obtain ⟨entries, read⟩ := Option.isSome_iff_exists.1 isMapping
  cases top with
  | scalar s => cases read
  | node root =>
    have found := get?_of_entries? read
    have plain : ∀ id ∈ all, g.hasField Schema.refKey id = false := by
      intro id member
      have none := List.any_eq_false.1 noRefs id (forest.mem_reachable_iff.2 member)
      simpa using none
    change g.field? (.node root) probeKey = none at lacks
    rw [field?, read, Option.bind_some, Entries.get?_eq_none_iff] at lacks
    cases forest with
    | @node _ _ node _ ids more there keys values rest =>
      obtain rfl : node = .mapping entries := Option.some.inj (there.symm.trans found)
      cases rest with
      | nil =>
        exact ⟨root, entries, ids, rfl, found, keys, values.within_length, nodup, plain,
          Entries.has_eq_false_iff.2 lacks⟩

omit tree isMapping noRefs lacks in
/-- The description with the probe, by the container at its root. -/
theorem probed_eq {root : Nat} {entries : Entries} (isRoot : document.root = .node root)
    (found : document.graph.get? root = some (.mapping entries)) :
    probed document = ⟨probedGraph document.graph root entries, .node root⟩ := by
  rw [probed, isRoot, entries?_of_get? found]

/-- The linker at hand does what it should for a description with the probe, if this nests no deeper
and has no more in it than the linker allows for. -/
theorem replaces_link {m : Type → Type} [Monad m] [LawfulMonad m]
    (load : String → Loading m Document)
    (shallow : document.graph.nests maxDepth document.root = true)
    (room : weight document.graph (List.range document.graph.size) + 5 ≤ maxVisits)
    {detached : Document} (detaches : detach (probed document) = .ok detached) :
    Replaces (link load "") detached := by
  obtain ⟨root, entries, ids, isRoot, laid⟩ := exists_laid tree isMapping noRefs lacks
  have inside : ∀ id ∈ ids ++ [root], id < document.graph.size := by
    intro id member
    rcases List.mem_append.1 member with early | top
    · exact laid.lt_size early
    · exact List.mem_singleton.1 top ▸ laid.root_lt
  have small := weight_le laid.nodup inside
  rw [weight_append, weight_cons laid.found, Node.values, List.length_map] at small
  simp only [weight, List.flatMap_nil, List.length_nil] at small room
  have nests : ∀ v ∈ (Node.mapping entries).values, document.graph.nests 999 v = true := by
    rw [isRoot, show maxDepth = 999 + 1 from rfl, Graph.nests, laid.found] at shallow
    exact List.all_eq_true.1 shallow
  have fits := laid.fits (laid.values.of_nests nests) (by rw [weight]; omega)
  rw [probed_eq isRoot laid.found, laid.detach_probed] at detaches
  cases detaches
  have length : (moved document.graph (placeOf document.graph root ids) ids).length = ids.length :=
    List.length_map _
  rw [← length]
  refine ⟨_, laid.written.link_withProbe load fits, ?_⟩
  rw [laid.written.replaced_withProbe]
  exact .refl _

end

/-- A description without references is used as it is. -/
theorem dereference_of_noRefs {m : Type → Type} [Monad m] (outside : Outside m) (base : String)
    {document : Document} (noRefs : Schema.hasRefs document.graph document.root = false) :
    dereference outside base document = (pure (withFreshRoot document) : Loading m Document) := by
  rw [dereference, noRefs]
  rfl

/-- A description that JSON could have said has the same models and endpoints if it is used as it is
and if it is detached and its references are replaced, as it is for an entry in which something
refers. -/
theorem dereference_probed {m : Type → Type} [Monad m] [LawfulMonad m] (outside : Outside m)
    (base : String) {document : Document} (tree : IsTree document)
    (isMapping : document.graph.isMapping document.root = true)
    (noRefs : Schema.hasRefs document.graph document.root = false)
    (lacks : document.graph.field? document.root probeKey = none)
    (replaces : ∀ detached, detach (probed document) = .ok detached →
      Replaces (outside.link (Load.fromUri outside) base) detached) :
    ∃ plain linked : Document,
      dereference outside base document = (pure plain : Loading m Document) ∧
      dereference outside base (probed document) = (pure linked : Loading m Document) ∧
      Api.docs linked.graph linked.root .builtin = Api.docs plain.graph plain.root .builtin := by
  obtain ⟨root, entries, ids, isRoot, laid⟩ := exists_laid tree isMapping noRefs lacks
  have same := probed_eq isRoot laid.found
  obtain ⟨g, top⟩ := document
  obtain rfl : top = .node root := isRoot
  have fresh : withFreshRoot ⟨g, .node root⟩ = ⟨(g.add (.mapping entries)).1, .node g.size⟩ := by
    rw [withFreshRoot, show g.node? (.node root) = _ from laid.found]
    rfl
  rw [same] at replaces ⊢
  obtain ⟨linked, steps, copy⟩ := replaces _ laid.detach_probed
  have length : (moved g (placeOf g root ids) ids).length = ids.length := List.length_map _
  rw [← length, laid.written.replaced_withProbe, length] at copy
  refine ⟨⟨(g.add (.mapping entries)).1, .node g.size⟩, linked,
    fresh ▸ dereference_of_noRefs outside base noRefs, ?_, laid.docs_of_isCopy copy⟩
  rw [dereference, laid.hasRefs_probed, if_pos rfl, laid.detach_probed]
  exact (pure_bind _ _).trans steps

/-- A description with one schema, in JSON. -/
def plainText : String :=
  "\x7b\"openapi\": \"3.0.0\", \"components\": \x7b\"schemas\": \x7b\"A\": \x7b\"type\": \"object\"\x7d\x7d\x7d\x7d"

theorem dereference_probed_plainText : ∃ document, Load.parse plainText "" = .ok document ∧
    IsTree document ∧ document.graph.isMapping document.root = true ∧
    Schema.hasRefs document.graph document.root = false ∧
    document.graph.field? document.root probeKey = none ∧
    ∃ (plain linked : Document) (docs : Api.Docs),
      dereference World.empty.outside "" document = (pure plain : Loading Id Document) ∧
      dereference World.empty.outside "" (probed document) = (pure linked : Loading Id Document) ∧
      Api.docs plain.graph plain.root .builtin = .ok docs ∧
      Api.docs linked.graph linked.root .builtin = .ok docs ∧
      docs.models.map (·.title) = ["A"] := by
  obtain ⟨document, parsed, facts⟩ : ∃ document, Load.parse plainText "" = .ok document ∧
      decide (Json.read? plainText = some document ∧
        document.graph.nests maxDepth document.root = true ∧
        weight document.graph (List.range document.graph.size) + 5 ≤ maxVisits ∧
        document.graph.isMapping document.root = true ∧
        Schema.hasRefs document.graph document.root = false ∧
        document.graph.field? document.root probeKey = none ∧
        ((Api.docs (withFreshRoot document).graph (withFreshRoot document).root
          .builtin).toOption.map fun docs => docs.models.map (·.title)) = some ["A"]) = true :=
    exists_of_toOption_map (by decide +kernel)
  obtain ⟨read, shallow, room, isMapping, noRefs, lacks, titles⟩ := of_decide_eq_true facts
  obtain ⟨docs, given, title⟩ := exists_of_toOption_map titles
  have tree := isTree_of_read read
  obtain ⟨plain, linked, first, second, same⟩ :=
    dereference_probed World.empty.outside "" tree isMapping noRefs lacks fun _ =>
      replaces_link tree isMapping noRefs lacks _ shallow room
  have asIs := dereference_of_noRefs World.empty.outside "" noRefs
  obtain rfl : plain = withFreshRoot document := Except.ok.inj (first.symm.trans asIs)
  exact ⟨document, parsed, tree, isMapping, noRefs, lacks, _, linked, docs, first, second, given,
    same.trans given, title⟩

/-- A description with a date in it, in YAML. -/
def datedText : String :=
  "openapi: 3.0.0\ninfo:\n  version: 2020-01-01\ncomponents:\n  schemas:\n    A:\n      type: object\n"

/-- A description with a date can be used as it is, but nothing in it may refer. -/
theorem not_dereference_probed_datedText : ∃ document, Load.parse datedText "" = .ok document ∧
    Schema.hasRefs document.graph document.root = false ∧
    document.graph.field? document.root probeKey = none ∧
    (∃ (plain : Document) (docs : Api.Docs),
      dereference World.empty.outside "" document = (pure plain : Loading Id Document) ∧
      Api.docs plain.graph plain.root .builtin = .ok docs ∧ docs.models.map (·.title) = ["A"]) ∧
    dereference World.empty.outside "" (probed document) =
      (throw .wrongKind : Loading Id Document) := by
  obtain ⟨document, parsed, facts⟩ : ∃ document, Load.parse datedText "" = .ok document ∧
      decide (Schema.hasRefs document.graph document.root = false ∧
        document.graph.field? document.root probeKey = none ∧
        ((Api.docs (withFreshRoot document).graph (withFreshRoot document).root
          .builtin).toOption.map fun docs => docs.models.map (·.title)) = some ["A"] ∧
        Schema.hasRefs (probed document).graph (probed document).root = true ∧
        detach (probed document) = .error .wrongKind) = true :=
    exists_of_toOption_map (by decide +kernel)
  obtain ⟨noRefs, lacks, titles, refs, wrongKind⟩ := of_decide_eq_true facts
  obtain ⟨docs, given, same⟩ := exists_of_toOption_map titles
  refine ⟨document, parsed, noRefs, lacks, ⟨withFreshRoot document, docs,
    dereference_of_noRefs World.empty.outside "" noRefs, given, same⟩, ?_⟩
  rw [dereference, refs, if_pos rfl, wrongKind]
  rfl

end Reference

end Typewright
