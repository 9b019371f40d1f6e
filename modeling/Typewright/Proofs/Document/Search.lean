import Mathlib.Data.List.Perm.Subperm
import Mathlib.Logic.Relation
import Typewright.Document.Search

/-!
# What a search finds

A search that has room for every node visits exactly the nodes that the start leads to
(`Search.mem_order_iff`), each once (`Search.order_nodup`), the start first (`Search.order_eq_cons`).

A search in progress is described by the nodes visited so far, the stack, and the nodes seen:
`Search.Progress` says that seen is visited or on the stack, each once, and that the visited nodes
lead to seen ones. `Search.visit_spec` carries this to the end of a run, where the stack is empty.

A search with more room finds the same in the same order (`Search.order_of_le`), and so does one
under other numbers (`Search.order_map`).
-/

namespace Typewright.Search

/-- One node leads directly to another. -/
def Leads (next : Nat → List Nat) (a b : Nat) : Prop := b ∈ next a

/-- Whatever a start leads to, itself apart, is below a bound. -/
def Bounded (next : Nat → List Nat) (bound start : Nat) : Prop :=
  ∀ a b, Relation.ReflTransGen (Leads next) start a → Leads next a b → b < bound

/-! ## Fresh successors -/

theorem mem_fresh {seen successors : List Nat} {id : Nat} :
    id ∈ fresh seen successors ↔ id ∈ successors ∧ id ∉ seen := by
  simp [fresh, List.mem_eraseDups]

/-- Dropping repetitions leaves none. -/
theorem nodup_eraseDups {α : Type} [BEq α] [LawfulBEq α] (l : List α) : l.eraseDups.Nodup := by
  induction h : l.length using Nat.strongRecOn generalizing l with
  | ind n ih =>
    cases l with
    | nil => simp
    | cons a rest =>
      rw [List.eraseDups_cons, List.nodup_cons]
      constructor
      · simp [List.mem_eraseDups]
      · refine ih _ ?_ _ rfl
        have shorter := List.length_filter_le (fun b => !b == a) rest
        simp only [List.length_cons] at h
        omega

theorem fresh_nodup (seen successors : List Nat) : (fresh seen successors).Nodup :=
  nodup_eraseDups _

/-! ## A search in progress -/

/-- The state of a search from a start: what was visited, what is on the stack, what was seen. -/
structure Progress (next : Nat → List Nat) (bound start : Nat) (visited stack seen : List Nat) :
    Prop where
  once : (visited ++ stack).Nodup
  seen_iff : ∀ id, id ∈ seen ↔ id ∈ visited ++ stack
  closed : ∀ a ∈ visited, ∀ b, Leads next a b → b ∈ seen
  reached : ∀ id ∈ seen, Relation.ReflTransGen (Leads next) start id

theorem Progress.start (next : Nat → List Nat) (bound start : Nat) :
    Progress next bound start [] [start] [start] where
  once := by simp
  seen_iff := by simp
  closed := by simp
  reached := by
    intro id member
    rw [List.mem_singleton] at member
    rw [member]

/-- Visiting the uppermost node of the stack. -/
theorem Progress.visit {next : Nat → List Nat} {bound start id : Nat}
    {visited stack seen : List Nat}
    (progress : Progress next bound start visited (id :: stack) seen) :
    Progress next bound start (visited ++ [id]) (fresh seen (next id) ++ stack)
      (seen ++ fresh seen (next id)) := by
  have onStack : id ∈ seen := (progress.seen_iff id).2 (by simp)
  have unseen : ∀ a ∈ fresh seen (next id), a ∉ visited ++ id :: stack := by
    intro a member
    rw [← progress.seen_iff]
    exact (mem_fresh.1 member).2
  constructor
  · have rearranged : (visited ++ [id] ++ (fresh seen (next id) ++ stack)).Perm
        (fresh seen (next id) ++ (visited ++ id :: stack)) := by
      have moved := List.perm_append_comm_assoc (visited ++ [id]) (fresh seen (next id)) stack
      rwa [List.append_assoc visited [id] stack] at moved
    rw [rearranged.nodup_iff, List.nodup_append]
    refine ⟨fresh_nodup _ _, progress.once, ?_⟩
    rintro a member b present rfl
    exact unseen a member present
  · intro a
    simp only [List.mem_append, progress.seen_iff, List.mem_cons]
    grind
  · intro a member b leads
    rw [List.mem_append]
    rcases List.mem_append.1 member with old | new
    · exact Or.inl (progress.closed a old b leads)
    · rw [List.mem_singleton] at new
      subst new
      by_cases known : b ∈ seen
      · exact Or.inl known
      · exact Or.inr (mem_fresh.2 ⟨leads, known⟩)
  · intro a member
    rcases List.mem_append.1 member with old | new
    · exact progress.reached a old
    · exact (progress.reached id onStack).tail (mem_fresh.1 new).1

/-! ## A whole run -/

/-- A search never has more nodes seen than the bound and the start. -/
theorem Progress.length_le {next : Nat → List Nat} {bound start : Nat}
    {visited stack seen : List Nat} (bounded : Bounded next bound start)
    (progress : Progress next bound start visited stack seen) :
    (visited ++ stack).length ≤ bound + 1 := by
  have inside : visited ++ stack ⊆ start :: List.range bound := by
    intro id member
    rcases (progress.reached id ((progress.seen_iff id).2 member)).cases_tail with same | more
    · rw [same]
      exact List.mem_cons_self
    · obtain ⟨before, path, leads⟩ := more
      exact List.mem_cons_of_mem _ (List.mem_range.2 (bounded before id path leads))
  have fewer := (progress.once.subperm inside).length_le
  simpa using fewer

/-- Once as many nodes are visited, none is left on the stack. -/
theorem Progress.stack_eq_nil {next : Nat → List Nat} {bound start : Nat}
    {visited stack seen : List Nat} (bounded : Bounded next bound start)
    (progress : Progress next bound start visited stack seen)
    (full : bound + 1 ≤ visited.length) : stack = [] := by
  have fits := progress.length_le bounded
  rw [List.length_append] at fits
  exact List.eq_nil_of_length_eq_zero (by omega)

/-- With fuel for every node not visited yet, a run ends with an empty stack. -/
theorem visit_spec {next : Nat → List Nat} {bound start : Nat} (bounded : Bounded next bound start)
    (fuel : Nat) {visited stack seen : List Nat}
    (progress : Progress next bound start visited stack seen)
    (enough : bound + 1 ≤ visited.length + fuel) :
    ∃ all, Progress next bound start (visited ++ visit next fuel stack seen) [] all ∧
      ∀ id ∈ seen, id ∈ all := by
  induction fuel generalizing visited stack seen with
  | zero =>
    obtain rfl := progress.stack_eq_nil bounded enough
    exact ⟨seen, by simpa [visit] using progress, fun _ member => member⟩
  | succ fuel ih =>
    cases stack with
    | nil => exact ⟨seen, by simpa [visit] using progress, fun _ member => member⟩
    | cons id stack =>
      have longer : bound + 1 ≤ (visited ++ [id]).length + fuel := by
        simp only [List.length_append, List.length_singleton]
        omega
      obtain ⟨all, done, kept⟩ := ih progress.visit longer
      refine ⟨all, ?_, fun b member => kept b (List.mem_append_left _ member)⟩
      simpa [visit] using done

section

variable {next : Nat → List Nat} {bound start : Nat}

/-- The end of a whole search. -/
theorem order_progress (bounded : Bounded next bound start) :
    ∃ all, Progress next bound start (order next bound start) [] all ∧ start ∈ all := by
  obtain ⟨all, done, kept⟩ :=
    visit_spec bounded (bound + 1) (Progress.start next bound start) (by simp)
  exact ⟨all, done, kept start (by simp)⟩

/-- No node is visited twice. -/
theorem order_nodup (bounded : Bounded next bound start) :
    (order next bound start).Nodup := by
  obtain ⟨_, done, _⟩ := order_progress bounded
  simpa using done.once

/-- A search visits the nodes that its start leads to, and no others. -/
theorem mem_order_iff (bounded : Bounded next bound start) {id : Nat} :
    id ∈ order next bound start ↔ Relation.ReflTransGen (Leads next) start id := by
  obtain ⟨all, done, started⟩ := order_progress bounded
  have seen_iff : ∀ b, b ∈ all ↔ b ∈ order next bound start := by
    intro b
    simpa using done.seen_iff b
  constructor
  · intro member
    exact done.reached id ((seen_iff id).2 member)
  · intro path
    induction path with
    | refl => exact (seen_iff start).1 started
    | tail _ leads ih => exact (seen_iff _).1 (done.closed _ ih _ leads)

/-- The start is visited first. -/
theorem order_eq_cons (next : Nat → List Nat) (bound start : Nat) :
    ∃ rest, order next bound start = start :: rest :=
  ⟨_, rfl⟩

/-- Once a run has fuel for every node, more makes no difference. -/
theorem visit_succ (bounded : Bounded next bound start) (fuel : Nat) {visited stack seen : List Nat}
    (progress : Progress next bound start visited stack seen)
    (enough : bound + 1 ≤ visited.length + fuel) :
    visit next (fuel + 1) stack seen = visit next fuel stack seen := by
  induction fuel generalizing visited stack seen with
  | zero =>
    obtain rfl := progress.stack_eq_nil bounded enough
    rfl
  | succ fuel ih =>
    cases stack with
    | nil => rfl
    | cons id stack =>
      have longer : bound + 1 ≤ (visited ++ [id]).length + fuel := by
        simp only [List.length_append, List.length_singleton]
        omega
      have later := ih progress.visit longer
      rw [visit, later, ← visit]

theorem Bounded.mono (bounded : Bounded next bound start) {more : Nat} (le : bound ≤ more) :
    Bounded next more start :=
  fun a b path leads => Nat.lt_of_lt_of_le (bounded a b path leads) le

/-- A search with more room than it needs visits the same nodes in the same order. -/
theorem order_of_le (bounded : Bounded next bound start) {more : Nat} (le : bound ≤ more) :
    order next more start = order next bound start := by
  induction le with
  | refl => rfl
  | @step more le ih =>
    rw [← ih]
    exact visit_succ (bounded.mono le) (more + 1) (Progress.start next more start) (by simp)

end

/-! ## Under other numbers -/

section

variable {f : Nat → Nat} (injective : Function.Injective f)
include injective

theorem contains_map (l : List Nat) (id : Nat) : (l.map f).contains (f id) = l.contains id := by
  rw [Bool.eq_iff_iff, List.contains_iff_mem, List.contains_iff_mem]
  exact List.mem_map_of_injective injective

theorem eraseDups_map (l : List Nat) : (l.map f).eraseDups = l.eraseDups.map f := by
  induction h : l.length using Nat.strongRecOn generalizing l with
  | ind n ih =>
    cases l with
    | nil => rfl
    | cons a rest =>
      have others : (rest.map f).filter (fun b => !b == f a) =
          (rest.filter fun b => !b == a).map f := by
        rw [List.filter_map]
        refine congrArg _ (List.filter_congr fun b _ => ?_)
        simp [injective.eq_iff]
      have shorter := List.length_filter_le (fun b => !b == a) rest
      rw [List.length_cons] at h
      rw [List.map_cons, List.eraseDups_cons, List.eraseDups_cons, others,
        ih _ (by omega) _ rfl, List.map_cons]

theorem fresh_map (seen successors : List Nat) :
    fresh (seen.map f) (successors.map f) = (fresh seen successors).map f := by
  rw [fresh, fresh, ← eraseDups_map injective, List.filter_map]
  refine congrArg _ (congrArg _ (List.filter_congr fun id _ => ?_))
  rw [Function.comp_apply, contains_map injective]

variable {next other : Nat → List Nat} (successors : ∀ id, other (f id) = (next id).map f)
include successors

theorem visit_map (fuel : Nat) (stack seen : List Nat) :
    visit other fuel (stack.map f) (seen.map f) = (visit next fuel stack seen).map f := by
  induction fuel generalizing stack seen with
  | zero => rfl
  | succ fuel ih =>
    cases stack with
    | nil => rfl
    | cons id stack =>
      rw [List.map_cons, visit, visit, successors, fresh_map injective, ← List.map_append,
        ← List.map_append, ih, List.map_cons]

/-- A search under other numbers visits the same nodes in the same order. -/
theorem order_map (bound start : Nat) :
    order other bound (f start) = (order next bound start).map f :=
  visit_map injective successors (bound + 1) [start] [start]

end

end Typewright.Search
