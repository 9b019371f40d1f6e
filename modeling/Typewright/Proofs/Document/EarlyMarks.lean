import Typewright.Proofs.Document.Traversal

/-!
# Marking nodes early

A search with a stack marks the successors of a node when it puts them on the stack and not when it
visits them. It is the recursive traversal of another kind: each node marks its unseen successors
before the first of them is traversed (`Search.Discovers`, `Search.discovers_iff`).

So a node may be passed over because it waits further down the stack, where the traversal that marks
late would visit it at once. The states of a search are those that its steps lead to
(`Search.Underway`). Where no node waits below a top that leads to it, the stack is in the order of
the late traversal (`Search.Underway.isNext`). That is so in every graph in which of two successors of
a node the earlier leads to the later one through that node only (`Search.Untangled`,
`Search.order_eq_of_untangled`).
-/

namespace Typewright.Search

open Relation

variable {next : Nat → List Nat} {bound start id : Nat} {visited stack seen : List Nat}

/-! ## Traversals with early marks -/

/-- The recursive traversal of nodes that are marked already: each marks its unseen successors and
traverses them. The lists are the marked nodes before, the nodes, the visits, and the marked nodes
after. -/
inductive Discovers (next : Nat → List Nat) : List Nat → List Nat → List Nat → List Nat → Prop
  | done (seen : List Nat) : Discovers next seen [] [] seen
  | visit {seen between after nodes inner outer : List Nat} {id : Nat}
      (deeper : Discovers next (seen ++ fresh seen (next id)) (fresh seen (next id)) inner between)
      (rest : Discovers next between nodes outer after) :
      Discovers next seen (id :: nodes) (id :: (inner ++ outer)) after

namespace Discovers

variable {nodes visits after : List Nat}

theorem subset (discovers : Discovers next seen nodes visits after) : ∀ a ∈ seen, a ∈ after := by
  induction discovers with
  | done => exact fun _ member => member
  | visit _ _ ihDeeper ihRest =>
    exact fun a member => ihRest a (ihDeeper a (List.mem_append_left _ member))

/-- With fuel for the visits, the search makes them and goes on below. -/
theorem visit_append (discovers : Discovers next seen nodes visits after) (fuel : Nat)
    (stack : List Nat) : Search.visit next (visits.length + fuel) (nodes ++ stack) seen =
      visits ++ Search.visit next fuel stack after := by
  induction discovers generalizing fuel stack with
  | done => rw [List.length_nil, Nat.zero_add]; rfl
  | @visit seen between after nodes inner outer id _ _ ihDeeper ihRest =>
    have count : (id :: (inner ++ outer)).length + fuel =
        (inner.length + (outer.length + fuel)) + 1 := by
      simp only [List.length_cons, List.length_append]
      omega
    rw [count, List.cons_append, Search.visit, ihDeeper, ihRest]
    simp

end Discovers

/-- What leads into a finite space is traversed in some way. -/
theorem exists_discovers (space : Finset Nat) (seen nodes : List Nat)
    (inside : ∀ a ∈ nodes, ∀ b, ReflTransGen (Leads next) a b → b ∈ space) :
    ∃ visits after, Discovers next seen nodes visits after := by
  induction room : (space \ seen.toFinset).card + nodes.length using Nat.strong_induction_on
    generalizing seen nodes with
  | _ size ih =>
  subst room
  cases nodes with
  | nil => exact ⟨[], seen, .done seen⟩
  | cons id nodes =>
    -- What is marked is taken out of the unseen part of the space.
    have moved : (space \ (seen ++ fresh seen (next id)).toFinset).card +
        (fresh seen (next id)).length ≤ (space \ seen.toFinset).card := by
      rw [← List.toFinset_card_of_nodup (fresh_nodup seen (next id)),
        ← Finset.card_union_of_disjoint]
      · refine Finset.card_le_card fun b member => ?_
        rcases Finset.mem_union.1 member with left | found
        · simp only [Finset.mem_sdiff, List.mem_toFinset, List.mem_append, not_or] at left ⊢
          exact ⟨left.1, left.2.1⟩
        · obtain ⟨leads, unseen⟩ := mem_fresh.1 (List.mem_toFinset.1 found)
          have reached := inside id List.mem_cons_self b (.single leads)
          simpa using ⟨reached, unseen⟩
      · refine Finset.disjoint_left.2 fun b left found => ?_
        simp only [Finset.mem_sdiff, List.mem_toFinset, List.mem_append, not_or] at left
        exact left.2.2 (List.mem_toFinset.1 found)
    obtain ⟨inner, between, deeper⟩ := ih _ (by simp only [List.length_cons]; omega)
      (seen ++ fresh seen (next id)) (fresh seen (next id))
      (fun a member b path => inside id List.mem_cons_self b (path.head (mem_fresh.1 member).1)) rfl
    have fewer : (space \ between.toFinset).card ≤ (space \ seen.toFinset).card := by
      refine Finset.card_le_card (Finset.sdiff_subset_sdiff (Finset.Subset.refl _) fun b member => ?_)
      exact List.mem_toFinset.2 (deeper.subset b (List.mem_append_left _ (List.mem_toFinset.1 member)))
    obtain ⟨outer, after, rest⟩ := ih _ (by simp only [List.length_cons]; omega) between nodes
      (fun a member => inside a (List.mem_cons_of_mem _ member)) rfl
    exact ⟨_, after, .visit deeper rest⟩

/-- A search with a stack makes the visits of the traversal with early marks. -/
theorem discovers_iff (bounded : Bounded next bound start) {visits : List Nat} :
    (∃ after, Discovers next [start] [start] visits after) ↔ visits = order next bound start := by
  have makes : ∀ {visits after : List Nat}, Discovers next [start] [start] visits after →
      visits = order next bound start := by
    intro visits after discovers
    have whole := discovers.visit_append (bound + 1) []
    rw [List.append_nil, Search.visit, List.append_nil] at whole
    rw [← order_of_le bounded (Nat.le_add_left bound visits.length), order, Nat.add_assoc, whole]
  constructor
  · intro found
    obtain ⟨after, discovers⟩ := found
    exact makes discovers
  · intro same
    obtain ⟨visits, after, discovers⟩ := exists_discovers _ [start] [start] bounded.mem_space
    rw [same, ← makes discovers]
    exact ⟨after, discovers⟩

/-- With early marks the same nodes are visited as in the traversal that marks late. -/
theorem order_perm (bounded : Bounded next bound start) {visits : List Nat}
    (traversal : DepthFirst next [] [start] visits) : (order next bound start).Perm visits :=
  (List.perm_ext_iff_of_nodup (order_nodup bounded) traversal.nodup.1).2 fun _ =>
    (mem_order_iff bounded).trans traversal.mem_iff.symm

/-! ## The states of a search -/

/-- The states of a search from a start: what was visited, the stack, and what was seen. -/
inductive Underway (next : Nat → List Nat) (start : Nat) : List Nat → List Nat → List Nat → Prop
  | start : Underway next start [] [start] [start]
  | step {visited stack seen : List Nat} {id : Nat}
      (before : Underway next start visited (id :: stack) seen) :
      Underway next start (visited ++ [id]) (fresh seen (next id) ++ stack)
        (seen ++ fresh seen (next id))

namespace Underway

theorem progress (state : Underway next start visited stack seen) :
    Progress next bound start visited stack seen := by
  induction state with
  | start => exact Progress.start next bound start
  | step _ ih => exact ih.visit

theorem nodup (state : Underway next start visited stack seen) : (visited ++ stack).Nodup :=
  (@progress next 0 start visited stack seen state).once

theorem mem_seen_iff (state : Underway next start visited stack seen) :
    id ∈ seen ↔ id ∈ visited ++ stack :=
  (@progress next 0 start visited stack seen state).seen_iff id

/-- What is visited later was on top of the stack after the visits before it. -/
theorem exists_top (state : Underway next start visited stack seen) {fuel : Nat}
    {front back : List Nat} (run : visit next fuel stack seen = front ++ id :: back) :
    ∃ rest seen, Underway next start (visited ++ front) (id :: rest) seen := by
  induction fuel generalizing visited stack seen front with
  | zero => simp [visit] at run
  | succ fuel ih =>
    cases stack with
    | nil => simp [visit] at run
    | cons top stack =>
      rw [visit] at run
      cases front with
      | nil =>
        obtain ⟨rfl, _⟩ := List.cons.inj run
        rw [List.append_nil]
        exact ⟨stack, seen, state⟩
      | cons first front =>
        obtain ⟨rfl, onward⟩ := List.cons.inj run
        obtain ⟨rest, seen, later⟩ := ih state.step onward
        rw [List.append_assoc, List.singleton_append] at later
        exact ⟨rest, seen, later⟩

end Underway

/-! ## The order of the stack -/

theorem exists_split_of_filter {keeps : Nat → Bool} {l front back : List Nat} {a : Nat}
    (shape : l.filter keeps = front ++ a :: back) :
    ∃ earlier later, l = earlier ++ a :: later ∧ earlier.filter keeps = front := by
  obtain ⟨earlier, rest, rfl, kept, shapeRest⟩ := List.filter_eq_append_iff.1 shape
  obtain ⟨between, later, rfl, none, _, _⟩ := List.filter_eq_cons_iff.1 shapeRest
  refine ⟨earlier ++ between, later, by simp, ?_⟩
  rw [List.filter_append, kept, List.filter_eq_nil_iff.2 none, List.append_nil]

/-- In front of the place where an element is listed first stand only elements listed before. -/
theorem exists_split_of_eraseDups {l front back : List Nat} {a : Nat}
    (shape : l.eraseDups = front ++ a :: back) :
    ∃ earlier later, l = earlier ++ a :: later ∧ ∀ b ∈ earlier, b ∈ front := by
  induction length : l.length using Nat.strong_induction_on generalizing l front with
  | _ size ih =>
  subst length
  cases l with
  | nil => simp at shape
  | cons c l =>
    rw [List.eraseDups_cons] at shape
    cases front with
    | nil =>
      obtain ⟨rfl, _⟩ := List.cons.inj shape
      exact ⟨[], l, rfl, by simp⟩
    | cons first front =>
      obtain ⟨rfl, onward⟩ := List.cons.inj shape
      have shorter := List.length_filter_le (fun b => !b == c) l
      obtain ⟨earlier, later, shapeRest, listed⟩ :=
        ih _ (by simp only [List.length_cons]; omega) onward rfl
      obtain ⟨before, after, rfl, rfl⟩ := exists_split_of_filter shapeRest
      refine ⟨c :: before, after, rfl, fun b member => ?_⟩
      by_cases same : b = c
      · rw [same]
        exact List.mem_cons_self
      · refine List.mem_cons_of_mem _ (listed b (List.mem_filter.2 ⟨?_, by simpa using same⟩))
        exact (List.mem_cons.1 member).resolve_left same

/-- In front of the place where a fresh successor is declared first stand only seen ones and those
that are fresh before it. -/
theorem exists_split_of_fresh {successors front back : List Nat} {a : Nat}
    (shape : fresh seen successors = front ++ a :: back) :
    ∃ earlier later, successors = earlier ++ a :: later ∧ ∀ b ∈ earlier, b ∈ seen ∨ b ∈ front := by
  obtain ⟨earlier, later, shapeUnseen, listed⟩ := exists_split_of_eraseDups shape
  obtain ⟨before, after, rfl, rfl⟩ := exists_split_of_filter shapeUnseen
  refine ⟨before, after, rfl, fun b member => ?_⟩
  by_cases known : b ∈ seen
  · exact .inl known
  · exact .inr (listed b (List.mem_filter.2 ⟨member, by simpa using known⟩))

/-- No node waits below a top that leads to it. -/
def MarksLate (next : Nat → List Nat) (start : Nat) : Prop :=
  ∀ visited top stack seen, Underway next start visited (top :: stack) seen →
    ∀ b ∈ next top, b ∉ stack

/-- A node waits on a stack: it comes after what is above it among the successors of a visited node,
behind which all is finished but for that. -/
def Waits (next : Nat → List Nat) (visited upper : List Nat) (id : Nat) : Prop :=
  ∃ before a after earlier later, visited = before ++ a :: after ∧
    (∀ d ∈ after, ∀ b ∈ next d, b ∈ visited ++ upper) ∧ next a = earlier ++ id :: later ∧
    ∀ b ∈ earlier, b ∈ visited ++ upper

/-- The next node to be visited goes above a waiting node, and what is new between them. -/
theorem Waits.step {top : Nat} {upper : List Nat} (waits : Waits next visited (top :: upper) id)
    (known : ∀ b ∈ next top, b ∈ visited ++ top :: seen) :
    Waits next (visited ++ [top]) (seen ++ upper) id := by
  obtain ⟨before, a, after, earlier, later, split, finished, shape, passed⟩ := waits
  have moved : ∀ {b : Nat}, b ∈ visited ++ top :: upper →
      b ∈ visited ++ [top] ++ (seen ++ upper) := by
    intro b member
    simp only [List.mem_append, List.mem_cons] at member ⊢
    tauto
  refine ⟨before, a, after ++ [top], earlier, later, by rw [split]; simp, ?_, shape,
    fun b member => moved (passed b member)⟩
  intro d member b leads
  rcases List.mem_append.1 member with member | member
  · exact moved (finished d member b leads)
  · rw [List.mem_singleton.1 member] at leads
    have reached := known b leads
    simp only [List.mem_append, List.mem_cons] at reached ⊢
    tauto

namespace Underway

theorem eq_start (state : Underway next start [] stack seen) : stack = [start] := by
  generalize none : ([] : List Nat) = visited at state
  cases state with
  | start => rfl
  | step => simp at none

/-- If nodes are marked late, then the stack is in the order of a traversal. -/
theorem waits (late : MarksLate next start) (state : Underway next start visited stack seen)
    (begun : visited ≠ []) {upper lower : List Nat} (shape : stack = upper ++ id :: lower) :
    Waits next visited upper id := by
  induction state generalizing upper id with
  | start => exact absurd rfl begun
  | @step visited stack seen top before ih =>
    -- What the top leads to has been visited or is on top of the stack now.
    have known : ∀ b ∈ next top, b ∈ visited ++ top :: fresh seen (next top) := by
      intro b leads
      by_cases marked : b ∈ seen
      · have place := before.mem_seen_iff.1 marked
        have notBelow := late _ _ _ _ before b leads
        simp only [List.mem_append, List.mem_cons] at place ⊢
        tauto
      · have found := mem_fresh.2 ⟨leads, marked⟩
        simp [found]
    rcases split_append_cases shape with ⟨between, split⟩ | ⟨between, rfl, rfl⟩
    · obtain ⟨earlier, later, shapeNext, listed⟩ := exists_split_of_fresh split
      refine ⟨visited, top, [], earlier, later, rfl, by simp, shapeNext, fun b member => ?_⟩
      have place := known b (by simp [shapeNext, member])
      rcases listed b member with marked | above
      · have onward := before.mem_seen_iff.1 marked
        have notBelow := late _ _ _ _ before b (by simp [shapeNext, member])
        simp only [List.mem_append, List.mem_cons] at onward ⊢
        tauto
      · simp [above]
    · cases visited with
      | nil =>
        have bottom := before.eq_start
        simp at bottom
      | cons first visited =>
        have waiting := ih (by simp) (show top :: (between ++ id :: lower) =
          (top :: between) ++ id :: lower from rfl)
        exact waiting.step known

theorem isNext (late : MarksLate next start)
    (state : Underway next start visited (id :: stack) seen) (begun : visited ≠ []) :
    IsNext next visited id := by
  obtain ⟨before, a, after, earlier, later, split, finished, shape, passed⟩ :=
    state.waits late begun (show id :: stack = [] ++ id :: stack from rfl)
  rw [List.append_nil] at finished passed
  have apart : id ∉ visited := by
    have once := state.nodup
    rw [List.nodup_append] at once
    exact fun visited => once.2.2 id visited id List.mem_cons_self rfl
  exact ⟨before, a, after, earlier, later, split, finished, shape, passed, apart⟩

end Underway

/-- A search that marks no node early makes its visits in the order of a traversal. -/
theorem deepens_of_marksLate (late : MarksLate next start) (bound : Nat) :
    Deepens next (order next bound start) := by
  intro front id back run begun
  obtain ⟨rest, seen, state⟩ := Underway.start.exists_top run
  exact state.isNext late begun

/-! ## Graphs without early marks -/

/-- A path on which a node does not lie. -/
def LeadsAround (next : Nat → List Nat) (avoided a b : Nat) : Prop :=
  a ≠ avoided ∧ ReflTransGen (fun c d => Leads next c d ∧ d ≠ avoided) a b

theorem LeadsAround.tail {avoided a b c : Nat} (path : LeadsAround next avoided a b)
    (leads : c ∈ next b) (apart : c ≠ avoided) : LeadsAround next avoided a c :=
  ⟨path.1, path.2.tail ⟨leads, apart⟩⟩

/-- Of two successors of a node, the earlier leads to the later through that node only, unless the
later one comes before the node on every path from the start. -/
def Untangled (next : Nat → List Nat) (start : Nat) : Prop :=
  ∀ a b c, LeadsAround next c start a → FirstOf (next a) b c → c ∈ next a → b ≠ c →
    ¬ LeadsAround next a b c

/-- One node waits below another: a visited node that comes before it leads to it, and to the other
around itself by a successor declared before. -/
def WaitsBelow (next : Nat → List Nat) (start : Nat) (visited : List Nat) (upper lower : Nat) : Prop :=
  ∃ a ∈ visited, ∃ b, LeadsAround next lower start a ∧ FirstOf (next a) b lower ∧ lower ∈ next a ∧
    b ≠ lower ∧ LeadsAround next a b upper

theorem pairwise_of_splits {relates : Nat → Nat → Prop} {l : List Nat}
    (each : ∀ front a back, l = front ++ a :: back → ∀ b ∈ back, relates a b) :
    l.Pairwise relates := by
  induction l with
  | nil => exact List.Pairwise.nil
  | cons c l ih =>
    refine List.pairwise_cons.2 ⟨each [] c l rfl, ih fun front a back shape => ?_⟩
    exact each (c :: front) a back (by rw [shape, List.cons_append])

namespace Underway

/-- What is seen is led to by way of visited nodes. -/
theorem leadsAround {other : Nat} (state : Underway next start visited stack seen)
    (marked : id ∈ seen) (unvisited : other ∉ visited) (apart : other ≠ id) :
    LeadsAround next other start id := by
  induction state generalizing id with
  | start =>
    rw [List.mem_singleton.1 marked] at apart ⊢
    exact ⟨apart.symm, .refl⟩
  | @step visited stack seen top before ih =>
    rw [List.mem_append, not_or, List.mem_singleton] at unvisited
    rcases List.mem_append.1 marked with old | new
    · exact ih old unvisited.1 apart
    · have onTop : top ∈ seen := before.mem_seen_iff.2 (by simp)
      exact (ih onTop unvisited.1 unvisited.2).tail (mem_fresh.1 new).1 apart.symm

/-- New nodes on the stack wait below those declared before them. -/
theorem pairwise_fresh (state : Underway next start visited (id :: stack) seen) :
    (fresh seen (next id)).Pairwise (WaitsBelow next start (visited ++ [id])) := by
  have onTop : id ∈ seen := state.mem_seen_iff.2 (by simp)
  have outside : ∀ a ∈ fresh seen (next id), a ∈ next id ∧ a ∉ visited ∧ a ≠ id := by
    intro a member
    obtain ⟨leads, unseen⟩ := mem_fresh.1 member
    refine ⟨leads, fun old => unseen (state.mem_seen_iff.2 (by simp [old])), fun same => ?_⟩
    rw [same] at unseen
    exact unseen onTop
  refine pairwise_of_splits fun front upper back shape lower behind => ?_
  have once := fresh_nodup seen (next id)
  rw [shape, List.nodup_append, List.nodup_cons] at once
  obtain ⟨_, ⟨notBehind, _⟩, notBefore⟩ := once
  obtain ⟨earlier, later, shapeNext, listed⟩ := exists_split_of_fresh shape
  have lowerFresh : lower ∈ fresh seen (next id) := by simp [shape, behind]
  have upperFresh : upper ∈ fresh seen (next id) := by simp [shape]
  obtain ⟨leads, unvisited, apart⟩ := outside lower lowerFresh
  refine ⟨id, by simp, upper, state.leadsAround onTop unvisited apart,
    ⟨earlier, later, shapeNext, fun early => ?_⟩, leads, fun same => ?_,
    (outside upper upperFresh).2.2, .refl⟩
  · rcases listed lower early with marked | above
    · exact (mem_fresh.1 lowerFresh).2 marked
    · exact notBefore lower above lower (List.mem_cons_of_mem _ behind) rfl
  · rw [same] at notBehind
    exact notBehind behind

theorem waitsBelow (state : Underway next start visited stack seen) :
    stack.Pairwise (WaitsBelow next start visited) := by
  induction state with
  | start => exact List.pairwise_singleton _ _
  | @step visited stack seen top before ih =>
    obtain ⟨below, among⟩ := List.pairwise_cons.1 ih
    refine List.pairwise_append.2 ⟨before.pairwise_fresh, among.imp ?_, ?_⟩
    · intro upper lower waits
      obtain ⟨a, member, rest⟩ := waits
      exact ⟨a, List.mem_append_left _ member, rest⟩
    · intro upper new lower member
      obtain ⟨a, visitedFirst, b, path, first, leads, apart, around⟩ := below lower member
      obtain ⟨leadsOn, unseen⟩ := mem_fresh.1 new
      have other : upper ≠ a := by
        intro same
        rw [same] at unseen
        exact unseen (before.mem_seen_iff.2 (by simp [visitedFirst]))
      exact ⟨a, List.mem_append_left _ visitedFirst, b, path, first, leads, apart,
        around.tail leadsOn other⟩

/-- In an untangled graph, no node is marked early. -/
theorem marksLate (untangled : Untangled next start) : MarksLate next start := by
  intro visited top stack seen state b leads below
  have once := state.nodup
  obtain ⟨a, member, c, path, first, leadsTo, apart, around⟩ :=
    (List.pairwise_cons.1 state.waitsBelow).1 b below
  have other : b ≠ a := by
    intro same
    rw [List.nodup_append] at once
    exact once.2.2 a member b (List.mem_cons_of_mem _ below) same.symm
  exact untangled a c b path first leadsTo apart (around.tail leads other)

end Underway

/-- In an untangled graph the search makes its visits in the order of the traversal. -/
theorem order_eq_of_untangled (untangled : Untangled next start) (bounded : Bounded next bound start)
    {visits : List Nat} (traversal : DepthFirst next [] [start] visits) :
    order next bound start = visits :=
  traversal.eq_of_deepens rfl (order_perm bounded traversal)
    (deepens_of_marksLate (Underway.marksLate untangled) bound)

end Typewright.Search
