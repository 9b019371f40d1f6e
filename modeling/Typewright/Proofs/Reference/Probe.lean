import Typewright.Proofs.Api.Invariance
import Typewright.Proofs.Reference.Linked

/-!
# Models beside a probe

Whatever replaces the reference of a tree with a probe by its target, the result has the models and
endpoints of the root without the probe (`Reference.Written.docs_of_isCopy`). That root stands behind
the replaced tree as a further container, and there the two roots agree on all sections that are read.
-/

namespace Typewright

namespace Reference

open Typewright.Graph

namespace Written

variable {nodes : List Node} {entries : Entries} (written : Written nodes entries)
include written

/-- What a container of a linked tree is like. The former reference has none that leads to it. -/
theorem of_get?_linkedProbe {id : Nat} {node : Node}
    (found : (linkedProbe nodes entries).get? id = some node) :
    node.HasTextKeys ∧
      (∀ child ∈ node.successors, child < nodes.length + 4 ∧ child ≠ nodes.length + 1) ∧
      (id ≠ nodes.length + 1 → IsPlain node) := by
  rcases listed_cases found with early | ⟨place, rfl, later⟩
  · obtain ⟨keys, closed⟩ := written.of_getElem? early
    refine ⟨keys, fun child held => ?_, fun _ => written.plain node (List.mem_of_getElem? early)⟩
    have small := closed child held
    omega
  · match place, later with
    | 0, later =>
      cases later
      exact ⟨⟨by simp, .nil⟩, by simp [Node.successors, Node.values],
        fun _ _ same => by cases same; rfl⟩
    | 1, later =>
      cases later
      exact ⟨⟨by simp, List.pairwise_singleton _ _⟩,
        by simp [Node.successors, Node.values, Value.node?, Value.str], fun other => absurd rfl other⟩
    | 2, later =>
      cases later
      exact ⟨⟨by simp, List.pairwise_pair.2 rfl⟩,
        by simp [Node.successors, Node.values, Value.node?], fun _ _ same => by cases same; rfl⟩
    | 3, later =>
      cases later
      refine ⟨keys_probeRoot written.keys written.lacks, fun child held => ?_,
        fun _ => plain_probeRoot written.rootPlain⟩
      rcases written.of_probeRoot held with own | probe <;> omega

omit written in
theorem size_linkedProbe : (linkedProbe nodes entries).size = nodes.length + 4 :=
  size_listed _ _

theorem of_mem_successors {id child : Nat}
    (leads : child ∈ (linkedProbe nodes entries).successors id) :
    child < nodes.length + 4 ∧ child ≠ nodes.length + 1 := by
  obtain ⟨node, found, held⟩ := mem_successors_iff.1 leads
  exact (written.of_get?_linkedProbe found).2.1 child held

/-- What the root of a linked tree leads to holds no reference. -/
theorem described_linkedProbe : Api.Described (linkedProbe nodes entries)
    ((linkedProbe nodes entries).reachable (nodes.length + 3)) := by
  have closed : (linkedProbe nodes entries).Closed := fun id child leads => by
    rw [size_linkedProbe]
    exact (written.of_mem_successors leads).1
  have inside : nodes.length + 3 < (linkedProbe nodes entries).size := by
    rw [size_linkedProbe]
    omega
  have own := closed.selfContained_reachable inside
  have bounded : Search.Bounded (linkedProbe nodes entries).successors
      (linkedProbe nodes entries).size (nodes.length + 3) := fun a b _ leads => closed a b leads
  refine ⟨own, fun id member all found => ?_, fun id member => ?_⟩
  · exact (written.of_get?_linkedProbe found).1.2
  · have other : id ≠ nodes.length + 1 := by
      cases (Search.mem_order_iff bounded).1 member with
      | refl => omega
      | tail _ leads => exact (written.of_mem_successors leads).2
    obtain ⟨node, found, _⟩ := own.found id member
    rw [hasField, field?_of_isPlain found ((written.of_get?_linkedProbe found).2.2 other)]
    rfl

omit written in
/-- A linked tree and the root without the probe. -/
def bothRoots (nodes : List Node) (entries : Entries) : Graph :=
  ((linkedProbe nodes entries).add (.mapping entries)).1

omit written in
theorem get?_bothRoots : (bothRoots nodes entries).get? (nodes.length + 4) =
    some (.mapping entries) := by
  rw [bothRoots, ← @size_linkedProbe nodes entries, get?_add]

omit written in
theorem get?_bothRoots_of_lt {id : Nat} (bound : id < nodes.length) :
    (bothRoots nodes entries).get? id = nodes[id]? := by
  have found := List.getElem?_eq_getElem bound
  rw [bothRoots, (extends_add (linkedProbe nodes entries) _).found
    ((get?_listed_of_lt bound).trans found), found]

omit written in
/-- The two roots agree on the sections that are read. -/
theorem docs_bothRoots :
    Api.docs (bothRoots nodes entries) (.node (nodes.length + 3)) .builtin =
      Api.docs (bothRoots nodes entries) (.node (nodes.length + 4)) .builtin := by
  have keeps : (linkedProbe nodes entries).Extends (bothRoots nodes entries) := extends_add _ _
  have probe : (bothRoots nodes entries).entries? (.node (nodes.length + 3)) =
      some (entries ++ [(.str probeKey, .node (nodes.length + 2))]) :=
    entries?_of_get? (keeps.found (get?_listed 3))
  have root := entries?_of_get? (@get?_bothRoots nodes entries)
  apply Api.docs_congr
  · rw [isMapping, root]
    rfl
  · rw [isMapping, probe]
    rfl
  · intro key section_
    have other : probeKey ≠ key := fun same => absurd (same ▸ section_) (by decide)
    rw [field?, field?, probe, root, Option.bind_some, Option.bind_some, Entries.get?_append,
      Entries.get?_cons, if_neg (by simpa using other), Entries.get?_nil, Option.or_none]

/-- A copy of a linked tree has the models and endpoints of the root without the probe. -/
theorem docs_of_isCopy {linked : Document}
    (copy : Document.IsCopy ⟨linkedProbe nodes entries, .node (nodes.length + 3)⟩ linked) :
    Api.docs linked.graph linked.root .builtin =
      Api.docs (bothRoots nodes entries) (.node (nodes.length + 4)) .builtin := by
  obtain ⟨r, root, copies⟩ := copy
  have own := written.described_linkedProbe
  have member : nodes.length + 3 ∈
      (linkedProbe nodes entries).reachable (nodes.length + 3) := by
    obtain ⟨rest, begins⟩ := Search.order_eq_cons (linkedProbe nodes entries).successors
      (linkedProbe nodes entries).size (nodes.length + 3)
    rw [reachable, begins]
    exact List.mem_cons_self
  have keeps : (linkedProbe nodes entries).Extends (bothRoots nodes entries) := extends_add _ _
  have inBoth := own.docs_of_copies (keeps.copies own.toSelfContained) member
  rw [root, Value.renumber_node]
  exact (own.docs_of_copies copies member).trans (inBoth.symm.trans docs_bothRoots)

end Written

end Reference

end Typewright
