import Mathlib.Data.List.Forall2
import Typewright.Document.Graph

/-!
# Entries and containers

Reading an entry under a text, and how setting entries changes what is read. Setting entries with
new keys appends them (`Entries.foldl_put_of_fresh`), and a text is read from the entries that were
set under it alone (`Entries.get?_foldl_put_of_ne`).

A graph is well formed if every number in it is that of a container and no mapping holds a key
twice (`Graph.WellFormed`). A graph extends another if it keeps its containers (`Graph.Extends`).
-/

namespace Typewright

/-! ## Lists side by side -/

theorem exists_partner_of_mem {α β : Type} {R : α → β → Prop} {l : List α} {m : List β}
    (all : List.Forall₂ R l m) {a : α} (member : a ∈ l) : ∃ b ∈ m, R a b := by
  induction all with
  | nil => cases member
  | cons one _ ih =>
    rcases List.mem_cons.1 member with same | later
    · rw [same]
      exact ⟨_, List.mem_cons_self, one⟩
    · obtain ⟨b, present, related⟩ := ih later
      exact ⟨b, List.mem_cons_of_mem _ present, related⟩

theorem exists_original_of_mem {α β : Type} {R : α → β → Prop} {l : List α} {m : List β}
    (all : List.Forall₂ R l m) {b : β} (member : b ∈ m) : ∃ a ∈ l, R a b :=
  exists_partner_of_mem all.flip member

/-! ## Keys -/

@[simp]
theorem Scalar.sameKey_str {key : Scalar} {s : String} :
    key.sameKey (.str s) = true ↔ key = .str s := by
  cases key <;> simp [sameKey, toInt?]

@[simp]
theorem Scalar.str_sameKey {key : Scalar} {s : String} :
    (Scalar.str s).sameKey key = true ↔ key = .str s := by
  cases key with
  | str t => simpa [sameKey, toInt?] using eq_comm
  | _ => simp [sameKey, toInt?]

namespace Entries

/-- No key is held twice. -/
def Distinct (entries : Entries) : Prop :=
  entries.Pairwise fun earlier later => earlier.1.sameKey later.1 = false

/-- No entry has a key that is the same as the given one. -/
def Lacks (entries : Entries) (key : Scalar) : Prop :=
  ∀ entry ∈ entries, entry.1.sameKey key = false

/-! ## Reading -/

@[simp]
theorem get?_nil (key : String) : get? [] key = none := rfl

theorem get?_cons (entry : Scalar × Value) (entries : Entries) (key : String) :
    get? (entry :: entries) key = if entry.1 = .str key then some entry.2 else get? entries key := by
  by_cases same : entry.1 = .str key
  · simp [get?, find?, same]
  · have other : entry.1.sameKey (.str key) = false := by simp [Bool.eq_false_iff, same]
    simp [get?, find?, same, other]

theorem get?_eq_none_iff {entries : Entries} {key : String} :
    entries.get? key = none ↔ ∀ entry ∈ entries, entry.1 ≠ .str key := by
  induction entries with
  | nil => simp
  | cons entry entries ih =>
    rw [get?_cons]
    by_cases same : entry.1 = .str key
    · simp [same]
    · simp [same, ih]

theorem mem_of_get? {entries : Entries} {key : String} {v : Value}
    (found : entries.get? key = some v) : (.str key, v) ∈ entries := by
  induction entries with
  | nil => cases found
  | cons entry entries ih =>
    rw [get?_cons] at found
    by_cases same : entry.1 = .str key
    · rw [if_pos same] at found
      cases found
      rw [← same]
      exact List.mem_cons_self
    · rw [if_neg same] at found
      exact List.mem_cons_of_mem _ (ih found)

theorem get?_eq_none_iff_not_has {entries : Entries} {key : String} :
    entries.get? key = none ↔ entries.has key = false := by
  rw [has, Option.isSome_eq_false_iff, Option.isNone_iff_eq_none]

theorem has_eq_false_iff {entries : Entries} {key : String} :
    entries.has key = false ↔ ∀ entry ∈ entries, entry.1 ≠ .str key := by
  rw [← get?_eq_none_iff, get?_eq_none_iff_not_has]

/-- What stands behind entries is read where these have nothing. -/
theorem get?_append (entries more : Entries) (key : String) :
    get? (entries ++ more) key = (entries.get? key).or (more.get? key) := by
  induction entries with
  | nil => rfl
  | cons entry entries ih =>
    rw [List.cons_append, get?_cons, get?_cons, ih]
    split <;> rfl

theorem get?_append_of_lacks {entries : Entries} {key : String} (lacks : entries.has key = false)
    (more : Entries) : get? (entries ++ more) key = more.get? key := by
  rw [get?_append, get?_eq_none_iff_not_has.2 lacks, Option.none_or]

/-! ## Setting -/

theorem put_of_lacks {entries : Entries} {key : Scalar} (v : Value) (lacks : entries.Lacks key) :
    entries.put key v = entries ++ [(key, v)] := by
  induction entries with
  | nil => rfl
  | cons entry entries ih =>
    have here : entry.1.sameKey key = false := lacks entry List.mem_cons_self
    have rest := ih fun other member => lacks other (List.mem_cons_of_mem _ member)
    rw [put, here, rest]
    rfl

theorem get?_put_of_ne {key : Scalar} {text : String} (entries : Entries) (v : Value)
    (other : key ≠ .str text) : (entries.put key v).get? text = entries.get? text := by
  induction entries with
  | nil => simp [put, get?_cons, other]
  | cons entry entries ih =>
    rcases entry with ⟨old, value⟩
    by_cases same : old.sameKey key
    · have different : old ≠ .str text := by
        rintro rfl
        exact other (Scalar.str_sameKey.1 same)
      rw [put, if_pos same, get?_cons, get?_cons, if_neg different, if_neg different]
    · rw [put, if_neg same, get?_cons, get?_cons, ih]

/-- Entries under other keys do not change what is read under a text. -/
theorem get?_foldl_put_of_ne {text : String} {more : Entries} (entries : Entries)
    (others : ∀ entry ∈ more, entry.1 ≠ .str text) :
    Entries.get? (more.foldl (fun all entry => all.put entry.1 entry.2) entries) text =
      entries.get? text := by
  induction more generalizing entries with
  | nil => rfl
  | cons entry more ih =>
    rw [List.foldl_cons, ih _ fun other member => others other (List.mem_cons_of_mem _ member),
      get?_put_of_ne _ _ (others entry List.mem_cons_self)]

/-- Entries with keys of their own are appended. -/
theorem foldl_put_of_fresh {more : Entries} (entries : Entries) (distinct : more.Distinct)
    (fresh : ∀ entry ∈ more, entries.Lacks entry.1) :
    more.foldl (fun all entry => all.put entry.1 entry.2) entries = entries ++ more := by
  induction more generalizing entries with
  | nil => simp
  | cons entry more ih =>
    rw [Distinct, List.pairwise_cons] at distinct
    rw [List.foldl_cons, put_of_lacks _ (fresh entry List.mem_cons_self),
      ih _ distinct.2, List.append_assoc]
    · rfl
    · intro later member old present
      rcases List.mem_append.1 present with before | new
      · exact fresh later (List.mem_cons_of_mem _ member) old before
      · rw [List.mem_singleton.1 new]
        exact distinct.1 later member

theorem get?_put_self (entries : Entries) (text : String) (v : Value) :
    (entries.put (.str text) v).get? text = some v := by
  induction entries with
  | nil => rw [put, get?_cons, if_pos rfl]
  | cons entry entries ih =>
    rcases entry with ⟨old, value⟩
    by_cases same : old.sameKey (.str text)
    · rw [put, if_pos same, get?_cons, if_pos (Scalar.sameKey_str.1 same)]
    · have different : old ≠ .str text := fun equal => same (Scalar.sameKey_str.2 equal)
      rw [put, if_neg same, get?_cons, if_neg different, ih]

/-- What was there is read where the entries that are set have nothing. -/
theorem get?_foldl_put {text : String} {more : Entries} (entries : Entries)
    (distinct : more.Distinct) :
    Entries.get? (more.foldl (fun all entry => all.put entry.1 entry.2) entries) text =
      (more.get? text).or (entries.get? text) := by
  induction more generalizing entries with
  | nil => rfl
  | cons entry more ih =>
    rw [Distinct, List.pairwise_cons] at distinct
    rw [List.foldl_cons, ih _ distinct.2, get?_cons]
    by_cases same : entry.1 = .str text
    · have rest : get? more text = none := by
        rw [get?_eq_none_iff]
        intro other member key
        have apart := distinct.1 other member
        rw [same, key, Bool.eq_false_iff] at apart
        exact apart (Scalar.sameKey_str.2 rfl)
      rw [if_pos same, rest, same, get?_put_self]
      rfl
    · rw [if_neg same, get?_put_of_ne _ _ same]

/-- Setting an entry brings in no value but its own. -/
theorem mem_values_put {entries : Entries} {key : Scalar} {v w : Value}
    (member : w ∈ (entries.put key v).map (·.2)) : w = v ∨ w ∈ entries.map (·.2) := by
  induction entries with
  | nil => simpa [put] using member
  | cons entry entries ih =>
    rw [put] at member
    split at member
    · rcases List.mem_cons.1 member with same | old
      · exact Or.inl same
      · exact Or.inr (List.mem_cons_of_mem _ old)
    · rcases List.mem_cons.1 member with same | later
      · exact Or.inr (List.mem_cons.2 (Or.inl same))
      · exact (ih later).imp id (List.mem_cons_of_mem _)

theorem mem_values_foldl_put {more : Entries} (entries : Entries) {w : Value}
    (member : w ∈ (more.foldl (fun all entry => all.put entry.1 entry.2) entries).map (·.2)) :
    w ∈ entries.map (·.2) ∨ w ∈ more.map (·.2) := by
  induction more generalizing entries with
  | nil => exact Or.inl member
  | cons entry more ih =>
    rcases ih _ member with early | late
    · rcases mem_values_put early with same | old
      · exact Or.inr (List.mem_cons.2 (Or.inl same))
      · exact Or.inl old
    · exact Or.inr (List.mem_cons_of_mem _ late)

theorem distinct_iff_keys {entries : Entries} :
    entries.Distinct ↔ (entries.map (·.1)).Pairwise fun a b => a.sameKey b = false := by
  rw [Distinct, List.pairwise_map]

theorem get?_of_mem_of_distinct {entries : Entries} {key : String} {v : Value}
    (distinct : entries.Distinct) (member : (.str key, v) ∈ entries) :
    entries.get? key = some v := by
  induction entries with
  | nil => cases member
  | cons entry entries ih =>
    rw [Distinct, List.pairwise_cons] at distinct
    rw [get?_cons]
    rcases List.mem_cons.1 member with here | later
    · rw [← here, if_pos rfl]
    · have apart := distinct.1 _ later
      rw [Bool.eq_false_iff, ne_eq, Scalar.sameKey_str] at apart
      rw [if_neg apart]
      exact ih distinct.2 later

theorem Distinct.sublist {entries fewer : Entries} (distinct : entries.Distinct)
    (sub : fewer.Sublist entries) : fewer.Distinct :=
  List.Pairwise.sublist sub distinct

end Entries

/-! ## Containers -/

theorem Value.node?_eq_some_iff {v : Value} {id : Nat} : v.node? = some id ↔ v = .node id := by
  cases v <;> simp [Value.node?]

theorem Node.mem_successors_iff {node : Node} {child : Nat} :
    child ∈ node.successors ↔ .node child ∈ node.values := by
  rw [successors, List.mem_filterMap]
  constructor
  · intro held
    obtain ⟨v, member, isNode⟩ := held
    rwa [← Value.node?_eq_some_iff.1 isNode]
  · intro member
    exact ⟨.node child, member, rfl⟩

namespace Graph

theorem mem_successors_iff {g : Graph} {id child : Nat} :
    child ∈ g.successors id ↔ ∃ node, g.get? id = some node ∧ child ∈ node.successors := by
  rw [successors]
  cases g.get? id with
  | none => simp
  | some node => simp

/-- Every number in a graph is that of a container. -/
def Closed (g : Graph) : Prop :=
  ∀ id, ∀ child ∈ g.successors id, child < g.size

/-- Every number in a graph is that of a container, and no mapping holds a key twice. -/
structure WellFormed (g : Graph) : Prop where
  inside : ∀ {id child : Nat}, child ∈ g.successors id → child < g.size
  distinct : ∀ {id : Nat} {entries : Entries}, g.get? id = some (.mapping entries) →
    entries.Distinct

theorem WellFormed.closed {g : Graph} (wellFormed : g.WellFormed) : g.Closed :=
  fun _ _ => wellFormed.inside

/-- Whether a container holds only numbers below a bound and no key twice. -/
def checkNode (size : Nat) : Node → Bool
  | .mapping entries =>
    decide (∀ child ∈ (Node.mapping entries).successors, child < size) &&
      decide (entries.Pairwise fun earlier later => earlier.1.sameKey later.1 = false)
  | .sequence items => decide (∀ child ∈ (Node.sequence items).successors, child < size)

/-- What all containers of a graph pass, a container that is found passes. -/
theorem of_all_nodes {g : Graph} {check : Node → Bool} (checked : g.nodes.toList.all check = true)
    {id : Nat} {node : Node} (found : g.get? id = some node) : check node = true :=
  List.all_eq_true.1 checked node (Array.mem_toList_iff.2 (Array.mem_of_getElem? found))

/-- A graph is well formed if all its containers pass the check. -/
theorem wellFormed_of_checked {g : Graph}
    (checked : g.nodes.toList.all (checkNode g.size) = true) : g.WellFormed := by
  constructor
  · intro id child member
    obtain ⟨node, found, held⟩ := mem_successors_iff.1 member
    have passed := of_all_nodes checked found
    cases node with
    | mapping entries =>
      rw [checkNode, Bool.and_eq_true, decide_eq_true_eq] at passed
      exact passed.1 child held
    | sequence items =>
      rw [checkNode, decide_eq_true_eq] at passed
      exact passed child held
  · intro id entries found
    have passed := of_all_nodes checked found
    rw [checkNode, Bool.and_eq_true, decide_eq_true_eq, decide_eq_true_eq] at passed
    exact passed.2

/-- A graph keeps the containers of another under their numbers. -/
structure Extends (g larger : Graph) : Prop where
  found : ∀ {id : Nat} {node : Node}, g.get? id = some node → larger.get? id = some node

theorem Extends.refl (g : Graph) : g.Extends g := ⟨id⟩

theorem Extends.trans {g larger largest : Graph} (first : g.Extends larger)
    (second : larger.Extends largest) : g.Extends largest :=
  ⟨fun found => second.found (first.found found)⟩

theorem lt_size_of_get? {g : Graph} {id : Nat} {node : Node} (found : g.get? id = some node) :
    id < g.size := by
  obtain ⟨bound, _⟩ := Array.getElem?_eq_some_iff.1 found
  exact bound

theorem Extends.size_le {g larger : Graph} (keeps : g.Extends larger) : g.size ≤ larger.size := by
  rcases Nat.eq_zero_or_pos g.size with empty | inhabited
  · omega
  · have bound : g.size - 1 < g.size := by omega
    have last := keeps.found (show g.get? (g.size - 1) = some g.nodes[g.size - 1] from
      Array.getElem?_eq_getElem bound)
    have inside := lt_size_of_get? last
    omega

theorem extends_append (g : Graph) (more : Array Node) : g.Extends ⟨g.nodes ++ more⟩ := by
  refine ⟨fun {id node} found => ?_⟩
  have bound := lt_size_of_get? found
  rw [get?, Array.getElem?_append_left bound]
  exact found

theorem extends_add (g : Graph) (node : Node) : g.Extends (g.add node).1 := by
  refine ⟨fun {id old} found => ?_⟩
  obtain ⟨bound, same⟩ := Array.getElem?_eq_some_iff.1 found
  rw [add, get?, Array.getElem?_push_lt bound, same]

theorem get?_add (g : Graph) (node : Node) : (g.add node).1.get? g.size = some node := by
  rw [add, get?, size, Array.getElem?_push_size]

theorem size_add (g : Graph) (node : Node) : (g.add node).1.size = g.size + 1 := by
  simp [add, size]

theorem entries?_of_get? {g : Graph} {id : Nat} {entries : Entries}
    (found : g.get? id = some (.mapping entries)) : g.entries? (.node id) = some entries := by
  simp [entries?, node?, found]

theorem field?_of_get? {g : Graph} {id : Nat} {entries : Entries}
    (found : g.get? id = some (.mapping entries)) (key : String) :
    g.field? (.node id) key = entries.get? key := by
  rw [field?, entries?_of_get? found]
  rfl

theorem get?_of_entries? {g : Graph} {id : Nat} {entries : Entries}
    (found : g.entries? (.node id) = some entries) : g.get? id = some (.mapping entries) := by
  rw [entries?, node?] at found
  split at found
  · next read => rw [read, ← Option.some.inj found]
  · cases found

end Graph

end Typewright
