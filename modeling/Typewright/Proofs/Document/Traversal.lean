import Mathlib.Data.Finset.Card
import Typewright.Proofs.Document.Search

/-!
# Depth-first traversals

The recursive traversal of a graph visits a node and then, one after the other, each of its successors
that is still unvisited (`Search.DepthFirst`). A finite graph is traversed in exactly one way
(`Search.exists_depthFirst`, `Search.DepthFirst.unique`), and what is visited is what the start leads
to, each node once (`Search.DepthFirst.mem_iff`).

The order of the visits can be told without the recursion. After some visits, the next one is to the
first unvisited successor of the last node that has any (`Search.IsNext`), and an order in which each
visit is the next one is that of the traversal (`Search.DepthFirst.eq_of_deepens`). This comes down to
a condition on any three nodes of the order (`Search.deepens_iff_keepsDepth`).
-/

namespace Typewright.Search

open Relation

/-- The recursive traversal of nodes, after others have been visited, and its visits in order. -/
inductive DepthFirst (next : Nat → List Nat) : List Nat → List Nat → List Nat → Prop
  | done (visited : List Nat) : DepthFirst next visited [] []
  | skip {visited nodes visits : List Nat} {id : Nat} (known : id ∈ visited)
      (rest : DepthFirst next visited nodes visits) : DepthFirst next visited (id :: nodes) visits
  | visit {visited nodes inner outer : List Nat} {id : Nat} (unvisited : id ∉ visited)
      (deeper : DepthFirst next (visited ++ [id]) (next id) inner)
      (rest : DepthFirst next (visited ++ id :: inner) nodes outer) :
      DepthFirst next visited (id :: nodes) (id :: (inner ++ outer))

variable {next : Nat → List Nat} {bound start id : Nat} {visited nodes visits order : List Nat}

namespace DepthFirst

theorem unique {others : List Nat} (one : DepthFirst next visited nodes visits)
    (other : DepthFirst next visited nodes others) : visits = others := by
  induction one generalizing others with
  | done => cases other; rfl
  | skip known _ ih =>
    cases other with
    | skip _ rest => exact ih rest
    | visit unvisited _ _ => exact absurd known unvisited
  | visit unvisited _ _ ihDeeper ihRest =>
    cases other with
    | skip known _ => exact absurd known unvisited
    | visit _ deeper rest =>
      obtain rfl := ihDeeper deeper
      rw [ihRest rest]

/-- Each visit is to an unvisited node, and to each node once. -/
theorem nodup (traversal : DepthFirst next visited nodes visits) :
    visits.Nodup ∧ ∀ id ∈ visits, id ∉ visited := by
  induction traversal with
  | done => exact ⟨List.nodup_nil, by simp⟩
  | skip _ _ ih => exact ih
  | @visit visited nodes inner outer id unvisited _ _ ihDeeper ihRest =>
    refine ⟨List.nodup_cons.2 ⟨fun again => ?_, List.nodup_append.2 ⟨ihDeeper.1, ihRest.1, ?_⟩⟩, ?_⟩
    · rcases List.mem_append.1 again with inside | behind
      · exact ihDeeper.2 id inside (by simp)
      · exact ihRest.2 id behind (by simp)
    · intro a inside b behind same
      subst same
      exact ihRest.2 a behind (by simp [inside])
    · intro a member
      rcases List.mem_cons.1 member with rfl | member
      · exact unvisited
      rcases List.mem_append.1 member with inside | behind
      · exact fun known => ihDeeper.2 a inside (List.mem_append_left _ known)
      · exact fun known => ihRest.2 a behind (List.mem_append_left _ known)

/-- In the end the nodes are visited, and what the visited ones lead to. -/
theorem closed (traversal : DepthFirst next visited nodes visits) :
    (∀ id ∈ nodes, id ∈ visited ++ visits) ∧ ∀ a ∈ visits, ∀ b ∈ next a, b ∈ visited ++ visits := by
  induction traversal with
  | done => exact ⟨by simp, by simp⟩
  | skip known _ ih =>
    refine ⟨fun a member => ?_, ih.2⟩
    rcases List.mem_cons.1 member with rfl | member
    · exact List.mem_append_left _ known
    · exact ih.1 a member
  | @visit visited nodes inner outer id _ _ _ ihDeeper ihRest =>
    have early : ∀ b ∈ visited ++ [id] ++ inner, b ∈ visited ++ id :: (inner ++ outer) := by
      intro b member
      simp only [List.mem_append, List.mem_cons] at member ⊢
      tauto
    have late : ∀ b ∈ visited ++ id :: inner ++ outer, b ∈ visited ++ id :: (inner ++ outer) := by
      intro b member
      rwa [List.append_assoc, List.cons_append] at member
    refine ⟨fun a member => ?_, fun a member b leads => ?_⟩
    · rcases List.mem_cons.1 member with rfl | member
      · simp
      · exact late a (ihRest.1 a member)
    · rcases List.mem_cons.1 member with rfl | member
      · exact early b (ihDeeper.1 b leads)
      rcases List.mem_append.1 member with inside | behind
      · exact early b (ihDeeper.2 a inside b leads)
      · exact late b (ihRest.2 a behind b leads)

theorem reached (traversal : DepthFirst next visited nodes visits) :
    ∀ b ∈ visits, ∃ a ∈ nodes, ReflTransGen (Leads next) a b := by
  induction traversal with
  | done => simp
  | skip _ _ ih =>
    intro b member
    obtain ⟨a, inside, path⟩ := ih b member
    exact ⟨a, List.mem_cons_of_mem _ inside, path⟩
  | @visit visited nodes inner outer id _ _ _ ihDeeper ihRest =>
    intro b member
    rcases List.mem_cons.1 member with rfl | member
    · exact ⟨b, List.mem_cons_self, .refl⟩
    rcases List.mem_append.1 member with inside | behind
    · obtain ⟨a, leads, path⟩ := ihDeeper b inside
      exact ⟨id, List.mem_cons_self, path.head leads⟩
    · obtain ⟨a, inside, path⟩ := ihRest b behind
      exact ⟨a, List.mem_cons_of_mem _ inside, path⟩

/-- From a start, exactly what it leads to is visited. -/
theorem mem_iff (traversal : DepthFirst next [] [start] visits) :
    id ∈ visits ↔ ReflTransGen (Leads next) start id := by
  constructor
  · intro member
    obtain ⟨a, same, path⟩ := traversal.reached id member
    rwa [List.mem_singleton.1 same] at path
  · intro path
    obtain ⟨begins, closed⟩ := traversal.closed
    simp only [List.nil_append] at begins closed
    induction path with
    | refl => exact begins start List.mem_cons_self
    | tail _ leads ih => exact closed _ ih _ leads

end DepthFirst

/-- What leads into a finite space is traversed in some way. -/
theorem exists_depthFirst (space : Finset Nat) (visited nodes : List Nat)
    (inside : ∀ a ∈ nodes, ∀ b, ReflTransGen (Leads next) a b → b ∈ space) :
    ∃ visits, DepthFirst next visited nodes visits := by
  induction room : (space \ visited.toFinset).card using Nat.strong_induction_on
    generalizing visited nodes with
  | _ size ih =>
  subst room
  induction nodes with
  | nil => exact ⟨[], .done visited⟩
  | cons id nodes ihNodes =>
    have later : ∀ a ∈ nodes, ∀ b, ReflTransGen (Leads next) a b → b ∈ space :=
      fun a member => inside a (List.mem_cons_of_mem _ member)
    by_cases known : id ∈ visited
    · obtain ⟨visits, rest⟩ := ihNodes later
      exact ⟨visits, .skip known rest⟩
    -- Once the node is visited, less of the space is left.
    have less : ∀ more, (space \ (visited ++ id :: more).toFinset).card <
        (space \ visited.toFinset).card := by
      intro more
      refine Finset.card_lt_card ((Finset.ssubset_iff_of_subset ?_).2 ⟨id, ?_, ?_⟩)
      · intro b member
        simp only [Finset.mem_sdiff, List.mem_toFinset, List.mem_append, not_or] at member ⊢
        exact ⟨member.1, member.2.1⟩
      · simp [inside id List.mem_cons_self id .refl, known]
      · simp
    obtain ⟨inner, deeper⟩ := ih _ (less []) (visited ++ [id]) (next id)
      (fun a leads b path => inside id List.mem_cons_self b (path.head leads)) rfl
    obtain ⟨outer, rest⟩ := ih _ (less inner) (visited ++ id :: inner) nodes later rfl
    exact ⟨_, .visit known deeper rest⟩

/-- The nodes that a start leads to are the start and nodes below the bound. -/
theorem Bounded.mem_space (bounded : Bounded next bound start) :
    ∀ a ∈ [start], ∀ b, ReflTransGen (Leads next) a b → b ∈ insert start (Finset.range bound) := by
  intro a same b path
  rw [List.mem_singleton.1 same] at path
  rcases path.cases_tail with same | ⟨before, front, leads⟩
  · rw [same]
    exact Finset.mem_insert_self _ _
  · exact Finset.mem_insert_of_mem (Finset.mem_range.2 (bounded before b front leads))

/-! ## The next visit -/

/-- The first unvisited successor of the last visited node that has one. -/
def IsNext (next : Nat → List Nat) (visited : List Nat) (id : Nat) : Prop :=
  ∃ before a after earlier later, visited = before ++ a :: after ∧
    (∀ d ∈ after, ∀ b ∈ next d, b ∈ visited) ∧ next a = earlier ++ id :: later ∧
    (∀ b ∈ earlier, b ∈ visited) ∧ id ∉ visited

/-- Each visit but the first is the next one after those before it. -/
def Deepens (next : Nat → List Nat) (order : List Nat) : Prop :=
  ∀ front id back, order = front ++ id :: back → front ≠ [] → IsNext next front id

/-- An element of two lists put together is in the first or in the second. -/
theorem split_append_cases {l m front back : List Nat} {a : Nat}
    (same : l ++ m = front ++ a :: back) :
    (∃ between, l = front ++ a :: between) ∨
      ∃ between, front = l ++ between ∧ m = between ++ a :: back := by
  rcases List.append_eq_append_iff.1 same with ⟨between, shape, rest⟩ | ⟨between, rfl, rest⟩
  · exact .inr ⟨between, shape, rest⟩
  · cases between with
    | nil => exact .inr ⟨[], by simp, rest.symm⟩
    | cons c between =>
      obtain ⟨rfl, _⟩ := List.cons.inj rest
      exact .inl ⟨between, rfl⟩

/-- Two places in one list are the same, or one is behind the other. -/
theorem splits_cases {front back others more : List Nat} {a b : Nat}
    (same : front ++ a :: back = others ++ b :: more) :
    (front = others ∧ a = b ∧ back = more) ∨
      (∃ between, others = front ++ a :: between ∧ back = between ++ b :: more) ∨
      ∃ between, front = others ++ b :: between ∧ more = between ++ a :: back := by
  rcases List.append_eq_append_iff.1 same with ⟨between, rfl, rest⟩ | ⟨between, rfl, rest⟩
  · cases between with
    | nil => exact .inl (by simpa using rest)
    | cons c between =>
      obtain ⟨rfl, rfl⟩ := List.cons.inj rest
      exact .inr (.inl ⟨between, rfl, rfl⟩)
  · cases between with
    | nil =>
      obtain ⟨rfl, rfl⟩ := List.cons.inj rest
      exact .inl ⟨by simp, rfl, rfl⟩
    | cons c between =>
      obtain ⟨rfl, rfl⟩ := List.cons.inj rest
      exact .inr (.inr ⟨between, rfl, rfl⟩)

theorem IsNext.unique {other : Nat} (one : IsNext next visited id)
    (second : IsNext next visited other) : id = other := by
  obtain ⟨before, a, after, earlier, later, split, finished, shape, passed, unvisited⟩ := one
  obtain ⟨beforeToo, aToo, afterToo, earlierToo, laterToo, splitToo, finishedToo, shapeToo,
    passedToo, unvisitedToo⟩ := second
  have leads : id ∈ next a := by simp [shape]
  have leadsToo : other ∈ next aToo := by simp [shapeToo]
  rcases splits_cases (split.symm.trans splitToo) with
    ⟨_, rfl, _⟩ | ⟨between, _, rfl⟩ | ⟨between, _, rfl⟩
  · rcases splits_cases (shape.symm.trans shapeToo) with
      ⟨_, same, _⟩ | ⟨between, rfl, _⟩ | ⟨between, rfl, _⟩
    · exact same
    · exact absurd (passedToo id (by simp)) unvisited
    · exact absurd (passed other (by simp)) unvisitedToo
  · exact absurd (finished aToo (by simp) other leadsToo) unvisitedToo
  · exact absurd (finishedToo a (by simp) id leads) unvisited

/-- Two orders of one length that deepen and begin alike are the same. -/
theorem Deepens.unique {front back others : List Nat} (begun : front ≠ [])
    (deepens : Deepens next (front ++ back)) (deepensToo : Deepens next (front ++ others))
    (length : back.length = others.length) : back = others := by
  induction back generalizing front others with
  | nil => exact (List.length_eq_zero_iff.1 length.symm).symm
  | cons id back ih =>
    cases others with
    | nil => cases length
    | cons other others =>
      have same := (deepens front id back rfl begun).unique (deepensToo front other others rfl begun)
      subst same
      rw [List.append_cons] at deepens deepensToo
      rw [ih (by simp) deepens deepensToo (Nat.succ.inj length)]

/-- Traversing what is left of a node's successors, when all behind the node is finished, each visit
is the next one. -/
theorem DepthFirst.isNext {before after earlier : List Nat} {a : Nat}
    (traversal : DepthFirst next visited nodes visits) (split : visited = before ++ a :: after)
    (finished : ∀ d ∈ after, ∀ b ∈ next d, b ∈ visited) (shape : next a = earlier ++ nodes)
    (passed : ∀ b ∈ earlier, b ∈ visited) {front back : List Nat}
    (reached : visits = front ++ id :: back) : IsNext next (visited ++ front) id := by
  induction traversal generalizing before after earlier a front back with
  | done => simp at reached
  | @skip visited nodes visits other known _ ih =>
    have shapeNow : next a = (earlier ++ [other]) ++ nodes := by rw [shape, List.append_cons]
    refine ih split finished shapeNow (fun b member => ?_) reached
    rcases List.mem_append.1 member with member | member
    · exact passed b member
    · rwa [List.mem_singleton.1 member]
  | @visit visited nodes inner outer other unvisited deeper rest ihDeeper ihRest =>
    cases front with
    | nil =>
      obtain ⟨rfl, _⟩ := List.cons.inj reached
      rw [List.append_nil]
      exact ⟨before, a, after, earlier, nodes, split, finished, shape, passed, unvisited⟩
    | cons first front =>
      obtain ⟨rfl, onward⟩ := List.cons.inj reached
      rcases split_append_cases onward with ⟨between, shapeInner⟩ | ⟨between, shapeFront, shapeOuter⟩
      · have found := ihDeeper (show visited ++ [other] = visited ++ other :: [] from rfl) (by simp)
          (show next other = [] ++ next other from rfl) (by simp) shapeInner
        rwa [List.append_assoc, List.singleton_append] at found
      · have done := deeper.closed
        have splitNow : visited ++ other :: inner = before ++ a :: (after ++ other :: inner) := by
          rw [split, List.append_assoc, List.cons_append]
        have finishedNow : ∀ d ∈ after ++ other :: inner, ∀ b ∈ next d,
            b ∈ visited ++ other :: inner := by
          intro d member b leads
          rcases List.mem_append.1 member with member | member
          · exact List.mem_append_left _ (finished d member b leads)
          rcases List.mem_cons.1 member with rfl | member
          · simpa using done.1 b leads
          · simpa using done.2 d member b leads
        have shapeNow : next a = (earlier ++ [other]) ++ nodes := by
          rw [shape, List.append_cons]
        have passedNow : ∀ b ∈ earlier ++ [other], b ∈ visited ++ other :: inner := by
          intro b member
          rcases List.mem_append.1 member with member | member
          · exact List.mem_append_left _ (passed b member)
          · simp [List.mem_singleton.1 member]
        have found := ihRest splitNow finishedNow shapeNow passedNow shapeOuter
        rwa [List.append_assoc, List.cons_append, ← shapeFront] at found

/-- In a traversal from a start, each visit is the next one. -/
theorem DepthFirst.deepens (traversal : DepthFirst next [] [start] visits) :
    Deepens next visits ∧ visits.head? = some start := by
  cases traversal with
  | skip known _ => simp at known
  | @visit _ _ inner outer _ _ deeper rest =>
    cases rest
    refine ⟨fun front id back reached begun => ?_, rfl⟩
    cases front with
    | nil => exact absurd rfl begun
    | cons first front =>
      rw [List.append_nil] at reached
      obtain ⟨rfl, onward⟩ := List.cons.inj reached
      exact deeper.isNext (show [] ++ [start] = [] ++ start :: [] from rfl) (by simp)
        (show next start = [] ++ next start from rfl) (by simp) onward

/-- An order of the same nodes that deepens from the start on is that of the traversal. -/
theorem DepthFirst.eq_of_deepens (traversal : DepthFirst next [] [start] visits)
    (begins : order.head? = some start) (same : order.Perm visits) (deepens : Deepens next order) :
    order = visits := by
  obtain ⟨deepensToo, beginsToo⟩ := traversal.deepens
  obtain ⟨rest, rfl⟩ := List.head?_eq_some_iff.1 begins
  obtain ⟨others, rfl⟩ := List.head?_eq_some_iff.1 beginsToo
  have length : rest.length = others.length := Nat.succ.inj same.length_eq
  have begun : [start] ≠ [] := by simp
  rw [Deepens.unique begun deepens deepensToo length]

/-! ## Three nodes of an order -/

/-- One element occurs in a list before another does. -/
def FirstOf (l : List Nat) (a b : Nat) : Prop :=
  ∃ front back, l = front ++ a :: back ∧ b ∉ front

/-- If a node leads to one that comes later, then everything in between is led to from in between, or
by the node itself and that before the later one. -/
def KeepsDepth (next : Nat → List Nat) (order : List Nat) : Prop :=
  ∀ before a between b after c, order = before ++ a :: (between ++ b :: after) → c ∈ after →
    c ∈ next a → FirstOf (next a) b c ∨ ∃ d ∈ between, b ∈ next d

theorem exists_first (holds : Nat → Prop) {l : List Nat} (some : ∃ a ∈ l, holds a) :
    ∃ front a back, l = front ++ a :: back ∧ holds a ∧ ∀ b ∈ front, ¬ holds b := by
  induction l with
  | nil => simp at some
  | cons c l ih =>
    by_cases here : holds c
    · exact ⟨[], c, l, rfl, here, by simp⟩
    obtain ⟨a, member, given⟩ := some
    rcases List.mem_cons.1 member with rfl | member
    · exact absurd given here
    obtain ⟨front, a, back, rfl, given, none⟩ := ih ⟨a, member, given⟩
    refine ⟨c :: front, a, back, rfl, given, fun b member => ?_⟩
    rcases List.mem_cons.1 member with rfl | member
    · exact here
    · exact none b member

theorem exists_last (holds : Nat → Prop) {l : List Nat} (some : ∃ a ∈ l, holds a) :
    ∃ front a back, l = front ++ a :: back ∧ holds a ∧ ∀ b ∈ back, ¬ holds b := by
  have reversed : ∃ a ∈ l.reverse, holds a := by simpa using some
  obtain ⟨front, a, back, shape, given, none⟩ := exists_first holds reversed
  refine ⟨back.reverse, a, front.reverse, ?_, given, fun b member => none b (by simpa using member)⟩
  have whole := congrArg List.reverse shape
  simpa using whole

/-- A path out of a set leaves it somewhere. -/
theorem exists_leaving {inside : Nat → Prop} {a b : Nat} (path : ReflTransGen (Leads next) a b)
    (begins : inside a) (ends : ¬ inside b) : ∃ c d, inside c ∧ ¬ inside d ∧ d ∈ next c := by
  induction path with
  | refl => exact absurd begins ends
  | @tail c d _ leads ih =>
    by_cases here : inside c
    · exact ⟨c, d, here, ends, leads⟩
    · exact ih here

/-- An order of exactly the nodes that the start leads to deepens if it keeps the depth, and the
other way round. -/
theorem deepens_iff_keepsDepth (begins : order.head? = some start) (nodup : order.Nodup)
    (members : ∀ id, id ∈ order ↔ ReflTransGen (Leads next) start id) :
    Deepens next order ↔ KeepsDepth next order := by
  constructor
  · intro deepens before a between b after c shape later leads
    have front : order = (before ++ a :: between) ++ b :: after := by simp [shape]
    obtain ⟨front', p, finished', earlier, rest, split, finished, shapeNext, passed, unvisited⟩ :=
      deepens _ b after front (by simp)
    have apart : c ∉ before ++ a :: between := by
      rw [front, List.nodup_append] at nodup
      exact fun early => nodup.2.2 c early c (List.mem_cons_of_mem _ later) rfl
    rcases splits_cases split with ⟨_, rfl, _⟩ | ⟨inner, _, rfl⟩ | ⟨inner, _, rfl⟩
    · exact .inl ⟨earlier, rest, shapeNext, fun early => apart (passed c early)⟩
    · exact .inr ⟨p, by simp, by simp [shapeNext]⟩
    · exact absurd (finished a (by simp) c leads) apart
  · intro keeps front b back shape begun
    have fresh : b ∉ front := by
      rw [shape, List.nodup_append] at nodup
      exact fun early => nodup.2.2 b early b List.mem_cons_self rfl
    have startInside : start ∈ front := by
      obtain ⟨first, others, rfl⟩ := List.exists_cons_of_ne_nil begun
      rw [shape] at begins
      simp at begins
      simp [begins]
    obtain ⟨c, d, visited, unvisited, leads⟩ :=
      exists_leaving ((members b).1 (by simp [shape])) startInside fresh
    -- The last visited node with an unvisited successor, and the first of its unvisited ones.
    obtain ⟨before, a, after, rfl, ⟨_, leads, unvisited⟩, finished⟩ :=
      exists_last (fun a => ∃ d, d ∈ next a ∧ d ∉ front) ⟨c, visited, d, leads, unvisited⟩
    obtain ⟨earlier, e, later, shapeNext, outside, passed⟩ :=
      exists_first (fun d => d ∉ before ++ a :: after) ⟨_, leads, unvisited⟩
    have finished : ∀ d ∈ after, ∀ b ∈ next d, b ∈ before ++ a :: after := by
      intro d member b leads
      by_contra unvisited
      exact finished d member ⟨b, leads, unvisited⟩
    have passed : ∀ b ∈ earlier, b ∈ before ++ a :: after :=
      fun b member => not_not.1 (passed b member)
    suffices same : e = b by
      subst same
      exact ⟨before, a, after, earlier, later, rfl, finished, shapeNext, passed, fresh⟩
    by_contra other
    have reached : e ∈ order := by
      have path : ReflTransGen (Leads next) start a := (members a).1 (by simp [shape])
      exact (members e).2 (path.tail (by simp [Leads, shapeNext]))
    have behind : e ∈ back := by
      rw [shape] at reached
      rcases List.mem_append.1 reached with early | late
      · exact absurd early outside
      · exact (List.mem_cons.1 late).resolve_left other
    rcases keeps before a after b back e (by simp [shape]) behind (by simp [shapeNext]) with
      ⟨front, rest, shapeToo, notBefore⟩ | ⟨d, member, leads⟩
    · rcases splits_cases (shapeNext.symm.trans shapeToo) with
        ⟨_, same, _⟩ | ⟨between, rfl, _⟩ | ⟨between, rfl, _⟩
      · exact other same
      · simp at notBefore
      · exact fresh (passed b (by simp))
    · exact fresh (finished d member b leads)

/-- The order of a traversal, told by three nodes at a time. -/
theorem DepthFirst.eq_iff_keepsDepth (traversal : DepthFirst next [] [start] visits)
    (begins : order.head? = some start) (same : order.Perm visits) :
    order = visits ↔ KeepsDepth next order := by
  have nodup : order.Nodup := same.nodup_iff.2 traversal.nodup.1
  have members : ∀ id, id ∈ order ↔ ReflTransGen (Leads next) start id :=
    fun id => same.mem_iff.trans traversal.mem_iff
  rw [← deepens_iff_keepsDepth begins nodup members]
  constructor
  · intro equal
    rw [equal]
    exact traversal.deepens.1
  · exact traversal.eq_of_deepens begins same

end Typewright.Search
