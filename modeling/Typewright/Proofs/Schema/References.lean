import Mathlib.Data.Finset.Card
import Typewright.Proofs.Document.Entries
import Typewright.Proofs.Document.Search
import Typewright.Schema.Structure

/-!
# Whether a document refers

A value refers if it leads to a mapping with an entry for a reference, through what mappings and
sequences hold (`Graph.Holds`). The question is answered by a search that stops at the first such
mapping. It puts everything that a container holds on its stack, so that a container can be on the
stack many times, and marks a container when it is taken from the stack (`Schema.Looks`).

The search ends on every graph (`Schema.exists_looks`): a container is opened once, and between two
openings the stack gets smaller. What a search without success has marked refers nowhere and holds
only what it has marked, too (`Schema.Swept`), so that the answer is the right one
(`Schema.hasRefs_iff`).
-/

namespace Typewright

open Relation

/-! ## What containers hold -/

namespace Graph

/-- One value is held by another, which is a mapping or a sequence. -/
def Holds (g : Graph) (v w : Value) : Prop :=
  ∃ node, g.node? v = some node ∧ w ∈ node.values

/-- What the container with the given number holds, in order. -/
def held (g : Graph) (id : Nat) : List Value :=
  ((g.get? id).map Node.values).getD []

theorem holds_iff_mem_held {g : Graph} {id : Nat} {w : Value} :
    g.Holds (.node id) w ↔ w ∈ g.held id := by
  rw [Holds, held, node?]
  cases g.get? id with
  | none => simp
  | some node => simp

theorem not_holds_scalar {g : Graph} {s : Scalar} {w : Value} : ¬g.Holds (.scalar s) w := by
  rintro ⟨node, found, _⟩
  cases found

theorem held_of_size_le {g : Graph} {id : Nat} (outside : g.size ≤ id) : g.held id = [] := by
  rw [held, get?, Array.getElem?_eq_none outside]
  rfl

theorem leads_iff_holds {g : Graph} {a b : Nat} :
    Search.Leads g.successors a b ↔ g.Holds (.node a) (.node b) := by
  rw [Search.Leads, mem_successors_iff, Holds, node?]
  simp only [Node.mem_successors_iff]

/-- A container that is led to is led to through containers only. -/
theorem leads_iff_holds_path {g : Graph} {a b : Nat} :
    ReflTransGen (Search.Leads g.successors) a b ↔ ReflTransGen g.Holds (.node a) (.node b) := by
  constructor
  · intro path
    exact path.lift Value.node fun _ _ => leads_iff_holds.1
  · intro path
    generalize goal : Value.node b = w at path
    induction path generalizing b with
    | refl =>
      cases goal
      exact .refl
    | @tail v w _ holds ih =>
      subst goal
      cases v with
      | scalar s => exact absurd holds not_holds_scalar
      | node middle => exact (ih rfl).tail (leads_iff_holds.2 holds)

theorem hasField_iff {g : Graph} {key : String} {id : Nat} :
    g.hasField key id = true ↔
      ∃ entries, g.entries? (.node id) = some entries ∧ entries.has key = true := by
  rw [hasField, field?]
  cases g.entries? (.node id) with
  | none => simp
  | some entries => simp [Entries.has]

end Graph

namespace Schema

variable {g : Graph} {id : Nat} {v : Value} {stack : List Value} {seen : List Nat} {answer : Bool}

/-! ## The answer -/

/-- A value leads to a mapping that has an entry for a reference. -/
def Refers (g : Graph) (v : Value) : Prop :=
  ∃ id, ReflTransGen g.Holds v (.node id) ∧ g.hasField refKey id = true

theorem refers_iff : Refers g v ↔ ∃ w entries, ReflTransGen g.Holds v w ∧
    g.entries? w = some entries ∧ entries.has refKey = true := by
  constructor
  · rintro ⟨id, path, refers⟩
    obtain ⟨entries, isMapping, has⟩ := Graph.hasField_iff.1 refers
    exact ⟨.node id, entries, path, isMapping, has⟩
  · rintro ⟨w, entries, path, isMapping, has⟩
    cases w with
    | scalar s => cases isMapping
    | node id => exact ⟨id, path, Graph.hasField_iff.2 ⟨entries, isMapping, has⟩⟩

theorem not_refers_scalar {s : Scalar} : ¬Refers g (.scalar s) := by
  rintro ⟨id, path, _⟩
  obtain ⟨w, holds, _⟩ := path.cases_head.resolve_left (by simp)
  exact Graph.not_holds_scalar holds

theorem Refers.of_held {w : Value} (refers : Refers g w) (member : w ∈ g.held id) :
    Refers g (.node id) := by
  obtain ⟨target, path, has⟩ := refers
  exact ⟨target, path.head (Graph.holds_iff_mem_held.2 member), has⟩

theorem hasRefs_iff_refers (closed : g.Closed) : hasRefs g v = true ↔ Refers g v := by
  cases v with
  | scalar s => simp [hasRefs, not_refers_scalar]
  | node start =>
    have bounded : Search.Bounded g.successors g.size start := fun a b _ leads => closed a b leads
    simp only [hasRefs, Graph.reachable, List.any_eq_true, Search.mem_order_iff bounded,
      Graph.leads_iff_holds_path, Refers]

/-! ## The search -/

/-- The answer of a search, given its stack and the containers it has seen. A container is seen when
it is taken from the stack, and what it holds goes on top, the last of it uppermost. -/
inductive Looks (g : Graph) : List Value → List Nat → Bool → Prop
  | ended (seen : List Nat) : Looks g [] seen false
  | scalar {stack : List Value} {seen : List Nat} {answer : Bool} (s : Scalar)
      (rest : Looks g stack seen answer) : Looks g (.scalar s :: stack) seen answer
  | again {id : Nat} {stack : List Value} {seen : List Nat} {answer : Bool} (known : id ∈ seen)
      (rest : Looks g stack seen answer) : Looks g (.node id :: stack) seen answer
  | found {id : Nat} {stack : List Value} {seen : List Nat} (unseen : id ∉ seen)
      (refers : g.hasField refKey id = true) : Looks g (.node id :: stack) seen true
  | opened {id : Nat} {stack : List Value} {seen : List Nat} {answer : Bool} (unseen : id ∉ seen)
      (plain : g.hasField refKey id = false)
      (rest : Looks g ((g.held id).reverse ++ stack) (id :: seen) answer) :
      Looks g (.node id :: stack) seen answer

/-- The containers of a graph that have not been seen. -/
def unseen (g : Graph) (seen : List Nat) : Finset Nat :=
  Finset.range g.size \ seen.toFinset

theorem card_unseen_lt (inside : id < g.size) (fresh : id ∉ seen) :
    (unseen g (id :: seen)).card < (unseen g seen).card := by
  refine Finset.card_lt_card (Finset.ssubset_iff_of_subset ?_ |>.2 ⟨id, ?_, ?_⟩)
  · exact Finset.sdiff_subset_sdiff (Finset.Subset.refl _) (by simp)
  · simp [unseen, inside, fresh]
  · simp [unseen]

theorem unseen_of_size_le (outside : g.size ≤ id) : unseen g (id :: seen) = unseen g seen := by
  rw [unseen, List.toFinset_cons, Finset.sdiff_insert, Finset.erase_eq_of_notMem (by simp [outside]),
    unseen]

/-- The search ends. -/
theorem exists_looks (g : Graph) (stack : List Value) (seen : List Nat) :
    ∃ answer, Looks g stack seen answer := by
  -- Opening a container leaves fewer unseen, any other step leaves a smaller stack.
  induction room : (unseen g seen).card using Nat.strong_induction_on generalizing stack seen with
  | _ size ihRoom =>
  induction stack generalizing seen with
  | nil => exact ⟨false, .ended seen⟩
  | cons v stack ihStack =>
    cases v with
    | scalar s =>
      obtain ⟨answer, rest⟩ := ihStack seen room
      exact ⟨answer, .scalar s rest⟩
    | node id =>
      by_cases known : id ∈ seen
      · obtain ⟨answer, rest⟩ := ihStack seen room
        exact ⟨answer, .again known rest⟩
      cases refers : g.hasField refKey id with
      | true => exact ⟨true, .found known refers⟩
      | false =>
        suffices deeper : ∃ answer, Looks g ((g.held id).reverse ++ stack) (id :: seen) answer by
          obtain ⟨answer, rest⟩ := deeper
          exact ⟨answer, .opened known refers rest⟩
        by_cases inside : id < g.size
        · exact ihRoom _ (room ▸ card_unseen_lt inside known) _ _ rfl
        · rw [Graph.held_of_size_le (by omega)]
          exact ihStack (id :: seen) (by rw [unseen_of_size_le (by omega), room])

/-- A search that succeeds has found something on its stack that refers. -/
theorem Looks.refers (looks : Looks g stack seen answer) (success : answer = true) :
    ∃ v ∈ stack, Refers g v := by
  induction looks with
  | ended => cases success
  | scalar _ _ ih | again _ _ ih =>
    obtain ⟨v, member, refers⟩ := ih success
    exact ⟨v, List.mem_cons_of_mem _ member, refers⟩
  | found _ refers => exact ⟨_, List.mem_cons_self, _, .refl, refers⟩
  | opened _ _ _ ih =>
    obtain ⟨v, member, refers⟩ := ih success
    rcases List.mem_append.1 member with above | below
    · exact ⟨_, List.mem_cons_self, refers.of_held (List.mem_reverse.1 above)⟩
    · exact ⟨v, List.mem_cons_of_mem _ below, refers⟩

/-- No container that was seen has an entry for a reference, and the containers it holds are seen or
still on the stack. -/
structure Swept (g : Graph) (stack : List Value) (seen : List Nat) : Prop where
  plain : ∀ id ∈ seen, g.hasField refKey id = false
  pending : ∀ id ∈ seen, ∀ child, .node child ∈ g.held id → child ∈ seen ∨ .node child ∈ stack

theorem Swept.scalar {s : Scalar} (swept : Swept g (.scalar s :: stack) seen) :
    Swept g stack seen := by
  refine ⟨swept.plain, fun id member child holds => ?_⟩
  exact (swept.pending id member child holds).imp_right fun held =>
    (List.mem_cons.1 held).resolve_left (by simp)

theorem Swept.again (swept : Swept g (.node id :: stack) seen) (known : id ∈ seen) :
    Swept g stack seen := by
  refine ⟨swept.plain, fun parent member child holds => ?_⟩
  rcases swept.pending parent member child holds with old | held
  · exact Or.inl old
  · rcases List.mem_cons.1 held with same | below
    · cases same
      exact Or.inl known
    · exact Or.inr below

theorem Swept.opened (swept : Swept g (.node id :: stack) seen)
    (plain : g.hasField refKey id = false) :
    Swept g ((g.held id).reverse ++ stack) (id :: seen) := by
  refine ⟨List.forall_mem_cons.2 ⟨plain, swept.plain⟩, List.forall_mem_cons.2 ⟨?_, ?_⟩⟩
  · intro child holds
    exact Or.inr (List.mem_append_left _ (List.mem_reverse.2 holds))
  · intro parent member child holds
    rcases swept.pending parent member child holds with old | held
    · exact Or.inl (List.mem_cons_of_mem _ old)
    · rcases List.mem_cons.1 held with same | below
      · cases same
        exact Or.inl List.mem_cons_self
      · exact Or.inr (List.mem_append_right _ below)

/-- A search without success ends with nothing pending, and has seen what was on its stack. -/
theorem Looks.swept (looks : Looks g stack seen answer) (failure : answer = false)
    (swept : Swept g stack seen) :
    ∃ all, Swept g [] all ∧ seen ⊆ all ∧ ∀ id, .node id ∈ stack → id ∈ all := by
  induction looks with
  | ended seen => exact ⟨seen, swept, fun _ => id, by simp⟩
  | scalar s _ ih =>
    obtain ⟨all, done, kept, inside⟩ := ih failure swept.scalar
    refine ⟨all, done, kept, fun id member => inside id ?_⟩
    exact (List.mem_cons.1 member).resolve_left (by simp)
  | again known _ ih =>
    obtain ⟨all, done, kept, inside⟩ := ih failure (swept.again known)
    refine ⟨all, done, kept, fun id member => ?_⟩
    rcases List.mem_cons.1 member with same | below
    · cases same
      exact kept known
    · exact inside id below
  | found => cases failure
  | opened _ plain _ ih =>
    obtain ⟨all, done, kept, inside⟩ := ih failure (swept.opened plain)
    rw [List.cons_subset] at kept
    refine ⟨all, done, kept.2, fun id member => ?_⟩
    rcases List.mem_cons.1 member with same | below
    · cases same
      exact kept.1
    · exact inside id (List.mem_append_right _ below)

/-- With nothing pending, what was seen leads to nothing else. -/
theorem Swept.mem_of_leads {target : Nat} (swept : Swept g [] seen) (member : id ∈ seen)
    (path : ReflTransGen (Search.Leads g.successors) id target) : target ∈ seen := by
  induction path with
  | refl => exact member
  | tail _ leads ih =>
    have holds := Graph.holds_iff_mem_held.1 (Graph.leads_iff_holds.1 leads)
    exact (swept.pending _ ih _ holds).resolve_right (by simp)

theorem Swept.not_refers (swept : Swept g [] seen) (member : id ∈ seen) :
    ¬Refers g (.node id) := by
  rintro ⟨target, path, refers⟩
  have reached := swept.mem_of_leads member (Graph.leads_iff_holds_path.2 path)
  rw [swept.plain target reached] at refers
  cases refers

/-- A search that has seen nothing yet tells whether something on its stack refers. -/
theorem Looks.answer_iff (looks : Looks g stack [] answer) :
    answer = true ↔ ∃ v ∈ stack, Refers g v := by
  refine ⟨looks.refers, fun ⟨v, member, refers⟩ => ?_⟩
  by_contra failure
  have start : Swept g stack [] := ⟨by simp, by simp⟩
  obtain ⟨all, done, _, inside⟩ := looks.swept (Bool.eq_false_iff.2 failure) start
  cases v with
  | scalar s => exact not_refers_scalar refers
  | node id => exact done.not_refers (inside id member) refers

/-- A value refers if and only if a mapping with an entry for a reference can be reached from it
through what mappings and sequences hold, whatever is shared and whatever leads back. The search for
such a mapping ends, and this is its only answer. -/
theorem hasRefs_iff (closed : g.Closed) (v : Value) :
    (hasRefs g v = true ↔ ∃ w entries, ReflTransGen g.Holds v w ∧
      g.entries? w = some entries ∧ entries.has refKey = true) ∧
    ∀ answer, Looks g [v] [] answer ↔ answer = hasRefs g v := by
  have right : ∀ {answer}, Looks g [v] [] answer → answer = hasRefs g v := by
    intro answer looks
    rw [Bool.eq_iff_iff, looks.answer_iff, hasRefs_iff_refers closed]
    simp
  refine ⟨(hasRefs_iff_refers closed).trans refers_iff, fun answer => ⟨right, fun same => ?_⟩⟩
  obtain ⟨other, looks⟩ := exists_looks g [v] []
  rwa [same, ← right looks]

/-- A mapping that holds itself and a list, which holds the mapping twice and a reference. -/
def winding : Graph := ⟨#[
  .mapping [(.str "self", .node 0), (.str "list", .node 1)],
  .sequence [.node 0, .node 2, .scalar .null, .node 0],
  .mapping [(.str "$ref", .scalar (.str "#/list"))]]⟩

/-- The reference is found behind the cycles. -/
theorem hasRefs_winding : winding.Closed ∧ Looks winding [.node 0] [] true ∧
    ∃ w entries, ReflTransGen winding.Holds (.node 0) w ∧
      winding.entries? w = some entries ∧ entries.has refKey = true := by
  have closed := (Graph.wellFormed_of_checked (g := winding) (by decide)).closed
  have refers : hasRefs winding (.node 0) = true := by decide
  obtain ⟨reached, looked⟩ := hasRefs_iff closed (.node 0)
  exact ⟨closed, (looked true).2 refers.symm, reached.1 refers⟩

end Schema

end Typewright
