import Typewright.Proofs.Json.FirstFault

/-!
# What has no JSON text

Writing the JSON text of a container fails as circular exactly where it meets a container inside
itself. The containers around a fault lead to it, so one of them that is met again is on a cycle
(`Json.FaultAt.reason`). If writing succeeds, no container that it went through is on a cycle
(`Json.not_leadsIntoCycle_of_write`).
-/

namespace Typewright

/-- Some path from a start ends on a cycle. -/
def LeadsIntoCycle (step : Nat → Nat → Prop) (start : Nat) : Prop :=
  ∃ id, Relation.ReflTransGen step start id ∧ Relation.TransGen step id id

namespace Json

/-- A container that JSON cannot hold, whatever the containers inside it are: it is missing, or has
a scalar or a key without a text. -/
inductive Unsupported (g : Graph) (id : Nat) : Prop
  | missing (absent : g.get? id = none)
  | scalar {node : Node} {s : Scalar} {fault : WriteFault} (found : g.get? id = some node)
      (held : .scalar s ∈ node.values) (textless : scalarText s = .error fault)
  | key {entries : Entries} {entry : Scalar × Value} {fault : WriteFault}
      (found : g.get? id = some (.mapping entries)) (member : entry ∈ entries)
      (textless : keyText entry.1 = .error fault)

section

variable {g : Graph} {layout : Layout} {fuel id : Nat} {around : List Nat}

/-! ## Along paths -/

/-- A container with a text is not around itself, and what it leads to has texts. -/
theorem textOf_node_ok {text : String}
    (written : textOf g layout (fuel + 1) around (.node id) = .ok text) :
    id ∉ around ∧ ∀ child ∈ g.successors id,
      ∃ text, textOf g layout fuel (id :: around) (.node child) = .ok text := by
  obtain ⟨outside, node, found, all⟩ := parts_of_textOf_ok written
  refine ⟨outside, fun child leads => ?_⟩
  obtain ⟨node', found', held⟩ := Graph.mem_successors_iff.1 leads
  cases found.symm.trans found'
  exact all _ (Node.value_mem_parts_iff.2 (Node.mem_successors_iff.1 held))

/-- Along a path from a container with a text there are texts, inside all that the path goes
through. -/
theorem textOf_ok_of_path {a b : Nat} {text : String}
    (written : textOf g layout fuel around (.node a) = .ok text)
    (path : Relation.TransGen (Search.Leads g.successors) a b) :
    ∃ fuel around text, a ∈ around ∧ textOf g layout fuel around (.node b) = .ok text := by
  have inside : ∀ {fuel around text child} (id : Nat), Search.Leads g.successors id child →
      textOf g layout fuel around (.node id) = .ok text →
      ∃ less text, textOf g layout less (id :: around) (.node child) = .ok text := by
    intro fuel around text child id leads written
    cases fuel with
    | zero => cases written
    | succ fuel =>
      obtain ⟨text, one⟩ := (textOf_node_ok written).2 child leads
      exact ⟨fuel, text, one⟩
  induction path with
  | single leads =>
    obtain ⟨less, text, one⟩ := inside a leads written
    exact ⟨less, _, text, List.mem_cons_self, one⟩
  | @tail before _ _ leads ih =>
    obtain ⟨fuel, around, text, member, one⟩ := ih
    obtain ⟨less, text, one⟩ := inside before leads one
    exact ⟨less, _, text, List.mem_cons_of_mem _ member, one⟩

/-- A container with a text does not lead into a cycle. -/
theorem not_leadsIntoCycle_of_write {start : Nat} {text : String}
    (written : write g layout (.node start) = .ok text) :
    ¬ LeadsIntoCycle (Search.Leads g.successors) start := by
  rintro ⟨id, path, cycle⟩
  -- the container on the cycle has a text, and one inside itself
  have reached : ∃ fuel around text, textOf g layout fuel around (.node id) = .ok text := by
    rcases Relation.reflTransGen_iff_eq_or_transGen.1 path with rfl | path
    · exact ⟨_, _, _, written⟩
    · obtain ⟨fuel, around, text, _, one⟩ := textOf_ok_of_path written path
      exact ⟨fuel, around, text, one⟩
  obtain ⟨fuel, around, text, one⟩ := reached
  obtain ⟨fuel, around, text, member, again⟩ := textOf_ok_of_path one cycle
  cases fuel with
  | zero => cases again
  | succ fuel => exact (textOf_node_ok again).1 member

/-- A fault has its reason at the end of a path: a container that is on a cycle, or one that JSON
cannot hold. The containers around lead to the one with the fault. -/
theorem FaultAt.reason {place : List Nat} {fault : WriteFault}
    (faulty : FaultAt g around (.value (.node id)) place fault)
    (inside : ∀ outer ∈ around, Relation.TransGen (Search.Leads g.successors) outer id) :
    (fault = .circular ∧ LeadsIntoCycle (Search.Leads g.successors) id) ∨
      (fault ≠ .circular ∧ ∃ place,
        Relation.ReflTransGen (Search.Leads g.successors) id place ∧ Unsupported g place) := by
  induction place generalizing around id with
  | nil =>
    cases faulty with
    | again member => exact Or.inl ⟨rfl, id, .refl, inside id member⟩
    | missing _ absent => exact Or.inr ⟨nofun, id, .refl, .missing absent⟩
  | cons number place ih =>
    cases faulty with
    | @within _ _ _ _ node part _ outside found isPart inner =>
      have member := List.mem_of_getElem? isPart
      match part, inner with
      | .key s, .key unwritable =>
        obtain ⟨entries, rfl, entry, isEntry, rfl⟩ := Node.key_mem_parts_iff.1 member
        exact Or.inr ⟨Scalar.ne_circular_of_writeFault? unwritable, id, .refl,
          .key found isEntry (keyText_eq_error_iff.2 unwritable)⟩
      | .value (.scalar s), .scalar unwritable =>
        exact Or.inr ⟨Scalar.ne_circular_of_writeFault? unwritable, id, .refl,
          .scalar found (Node.value_mem_parts_iff.1 member)
            (scalarText_eq_error_iff.2 unwritable)⟩
      | .value (.node child), inner =>
        have leads : child ∈ g.successors id := Graph.mem_successors_iff.2
          ⟨node, found, Node.mem_successors_iff.2 (Node.value_mem_parts_iff.1 member)⟩
        have further : ∀ outer ∈ id :: around,
            Relation.TransGen (Search.Leads g.successors) outer child :=
          List.forall_mem_cons.2 ⟨.single leads, fun outer around => (inside outer around).tail leads⟩
        rcases ih inner further with ⟨same, place, path, cycle⟩ | ⟨other, place, path, unsupported⟩
        · exact Or.inl ⟨same, place, path.head leads, cycle⟩
        · exact Or.inr ⟨other, place, path.head leads, unsupported⟩

/-- A container without a text leads into a cycle, or to one that JSON cannot hold. -/
theorem write_error {start : Nat} {fault : WriteFault}
    (failed : write g layout (.node start) = .error fault) :
    (fault = .circular ∧ LeadsIntoCycle (Search.Leads g.successors) start) ∨
      (fault ≠ .circular ∧ ∃ place,
        Relation.ReflTransGen (Search.Leads g.successors) start place ∧ Unsupported g place) := by
  obtain ⟨_, faulty, _⟩ := write_eq_error_iff.1 failed
  exact faulty.reason (by simp)

/-- Where JSON can hold every container, writing fails exactly if there is a cycle, as circular. -/
theorem write_eq_circular_iff {start : Nat}
    (supported : ∀ place, Relation.ReflTransGen (Search.Leads g.successors) start place →
      ¬ Unsupported g place) :
    write g layout (.node start) = .error .circular ↔
      LeadsIntoCycle (Search.Leads g.successors) start := by
  constructor
  · intro failed
    rcases write_error failed with ⟨_, cycle⟩ | ⟨other, _⟩
    · exact cycle
    · exact absurd rfl other
  · intro cycle
    cases result : write g layout (.node start) with
    | ok text => exact absurd cycle (not_leadsIntoCycle_of_write result)
    | error fault =>
      rcases write_error result with ⟨rfl, _⟩ | ⟨_, place, path, unsupported⟩
      · rfl
      · exact absurd unsupported (supported place path)

end

end Json

end Typewright
