import Mathlib.Logic.Relation
import Typewright.Compile.Render
import Typewright.Proofs.Document.Search
import Typewright.Proofs.Outcome
import Typewright.Proofs.Schema.Dependencies

/-!
# What a compilation reaches

Everything that a compilation looks at can be reached from its root: what a reached container holds
is reached (`Compile.Reached.of_mem`), and so is what a reference resolves to
(`Compile.Reached.of_follow`). What it takes for a schema is reached in a particular way, under the
keywords that hold schemas (`Compile.Visited`).
-/

namespace Typewright.Compile

/-- A value that is a scalar or a container to which the root of a compilation leads. -/
def Reached (job : Job) (v : Value) : Prop :=
  ∀ id, v.node? = some id → Relation.ReflTransGen (Search.Leads job.graph.successors) job.root id

namespace Reached

variable {job : Job}

theorem scalar (s : Scalar) : Reached job (.scalar s) := by
  intro id same
  cases same

theorem root : Reached job (.node job.root) := by
  intro id same
  cases same
  exact .refl

/-- What a reached container holds is reached. -/
theorem of_mem {id : Nat} {node : Node} {v : Value} (reached : Reached job (.node id))
    (found : job.graph.get? id = some node) (held : v ∈ node.values) : Reached job v := by
  intro child same
  refine (reached id rfl).tail (Graph.mem_successors_of_get? found ?_)
  cases v with
  | scalar s => cases same
  | node other =>
    cases same
    exact held

theorem of_entries? {v w : Value} {entries : Entries} (reached : Reached job v)
    (found : job.graph.entries? v = some entries) (held : w ∈ entries.map (·.2)) :
    Reached job w := by
  cases v with
  | scalar s => cases found
  | node id => exact reached.of_mem (Graph.get?_of_entries? found) held

theorem of_items? {v w : Value} {items : List Value} (reached : Reached job v)
    (found : job.graph.items? v = some items) (held : w ∈ items) : Reached job w := by
  cases v with
  | scalar s => cases found
  | node id => exact reached.of_mem (Graph.get?_of_items? found) held

theorem of_get? {v w : Value} {entries : Entries} {key : String} (reached : Reached job v)
    (found : job.graph.entries? v = some entries) (held : entries.get? key = some w) :
    Reached job w :=
  reached.of_entries? found (Entries.mem_values_of_get? held)

/-! ## References -/

theorem of_itemAt {items : List Value} {index : Int} {w : Value}
    (each : ∀ v ∈ items, Reached job v) (found : itemAt items index = .ok w) : Reached job w := by
  rw [itemAt] at found
  generalize (if index < 0 then index + (items.length : Int) else index) = place at found
  by_cases negative : place < 0
  · rw [if_pos negative] at found
    cases found
  · rw [if_neg negative] at found
    cases held : items[place.toNat]? with
    | none =>
      rw [held] at found
      cases found
    | some v =>
      rw [held] at found
      cases found
      exact each w (List.mem_of_getElem? held)

theorem of_stepTo {ref segment : String} {v w : Value} (reached : Reached job v)
    (found : stepTo job.graph ref v segment = .ok w) : Reached job w := by
  cases v with
  | scalar s => cases found
  | node id =>
    rw [stepTo] at found
    split at found
    · next items read =>
      split at found
      · exact of_itemAt (fun v member => reached.of_mem read member) found
      · cases found
    · next entries read =>
      split at found
      · next v held =>
        cases found
        exact reached.of_mem read (Entries.mem_values_of_get? held)
      · cases found
    · cases found

theorem of_foldlM {ref : String} {segments : List (List Char)} {v w : Value}
    (reached : Reached job v)
    (found : segments.foldlM (fun v segment =>
      stepTo job.graph ref v (Pointer.decodeSegment segment)) v = .ok w) : Reached job w := by
  induction segments generalizing v with
  | nil =>
    cases found
    exact reached
  | cons segment segments ih =>
    rw [List.foldlM_cons] at found
    obtain ⟨between, next, found⟩ := exists_of_bind_ok found
    exact ih (reached.of_stepTo next) found

/-- What a reference resolves to is reached. -/
theorem of_resolve {ref : String} {w : Value}
    (found : resolve job.graph (.node job.root) ref = .ok w) : Reached job w := by
  rw [resolve] at found
  split at found
  · exact of_foldlM root found
  · cases found

theorem of_followFrom {fuel : Nat} {hopped : Bool} {v : Value} {target : Value × Bool}
    (reached : Reached job v)
    (found : followFrom job.graph (.node job.root) fuel hopped v = .ok target) :
    Reached job target.1 := by
  induction fuel generalizing hopped v with
  | zero => cases found
  | succ fuel ih =>
    rw [followFrom] at found
    split at found
    · cases found
      exact reached
    · obtain ⟨_, _, found⟩ := exists_of_bind_ok found
      obtain ⟨between, next, found⟩ := exists_of_bind_ok found
      exact ih (of_resolve next) found

/-- What following references from a reached value ends at is reached. -/
theorem of_follow {v : Value} {target : Value × Bool} (reached : Reached job v)
    (found : follow job.graph (.node job.root) v = .ok target) : Reached job target.1 :=
  reached.of_followFrom found

end Reached

/-! ## Visited schemas -/

/-- A value that a compilation takes for a schema. -/
inductive Visited (job : Job) : Value → Prop
  | root : Visited job (.node job.root)
  | scalar (s : Scalar) : Visited job (.scalar s)
  | under {schema : Nat} {entries : Entries} {key : String} {v : Value}
      (visited : Visited job (.node schema))
      (found : job.graph.get? schema = some (.mapping entries))
      (single : key ∈ ["items", "additionalItems", "additionalProperties"])
      (held : entries.get? key = some v) : Visited job v
  | listed {schema : Nat} {entries : Entries} {key : String} {items : List Value} {v : Value}
      (visited : Visited job (.node schema))
      (found : job.graph.get? schema = some (.mapping entries))
      (several : key ∈ ["items", "allOf", "anyOf", "oneOf"])
      (given : job.listUnder? entries key = some items) (member : v ∈ items) : Visited job v
  | entry {schema : Nat} {entries inside : Entries} {key : String} {v : Value}
      (visited : Visited job (.node schema))
      (found : job.graph.get? schema = some (.mapping entries))
      (several : key ∈ ["properties", "patternProperties"])
      (given : entriesUnder job.graph entries key = .ok inside)
      (member : v ∈ inside.map (·.2)) : Visited job v
  | target {v : Value} {target : Value × Bool} (visited : Visited job v)
      (given : follow job.graph (.node job.root) v = .ok target) : Visited job target.1

/-- What is taken for a schema is reached. -/
theorem Visited.reached {job : Job} {v : Value} (visited : Visited job v) : Reached job v := by
  induction visited with
  | root => exact .root
  | scalar s => exact .scalar s
  | under _ found _ held ih => exact ih.of_get? (Graph.entries?_of_get? found) held
  | listed _ found _ given member ih =>
    rw [Job.listUnder?, Option.bind_eq_some_iff] at given
    obtain ⟨holder, held, read⟩ := given
    exact (ih.of_get? (Graph.entries?_of_get? found) held).of_items? read member
  | entry _ found _ given member ih =>
    rw [entriesUnder] at given
    split at given
    · cases given
      cases member
    · next holder held =>
      split at given
      · next readInside =>
        cases given
        exact (ih.of_get? (Graph.entries?_of_get? found) held).of_entries? readInside member
      · split at given
        · cases given
        · cases given
          cases member
  | target _ given ih => exact ih.of_follow given

end Typewright.Compile
