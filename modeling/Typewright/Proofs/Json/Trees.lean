import Mathlib.Algebra.Group.Nat.Defs
import Typewright.Json.Reader
import Typewright.Proofs.Document.Forest

/-!
# JSON texts are trees

Every object and array of a JSON text becomes a container of its own, so what is read is a tree with
scalars of JSON and with texts as keys (`Json.forest_of_read`). A value that a later one under the
same key replaces leaves the tree, but its containers stay in the graph.
-/

namespace Typewright

open Typewright.Graph

/-! ## Setting an entry -/

theorem Entries.keys_put (entries : Entries) (key : Scalar) (v : Value) :
    (entries.put key v).map (·.1) = entries.map (·.1) ∨ entries.Lacks key := by
  induction entries with
  | nil => exact .inr (by simp [Lacks])
  | cons entry entries ih =>
    obtain ⟨k, w⟩ := entry
    rw [put]
    split
    · exact .inl rfl
    · rename_i other
      rcases ih with same | lacks
      · exact .inl (congrArg (k :: ·) same)
      · exact .inr (List.forall_mem_cons.2 ⟨Bool.eq_false_iff.2 other, lacks⟩)

theorem Node.hasTextKeys_iff {entries : Entries} : (Node.mapping entries).HasTextKeys ↔
    (∀ key ∈ entries.map (·.1), ∃ text, key = .str text) ∧
      (entries.map (·.1)).Pairwise fun a b => a.sameKey b = false := by
  rw [← Entries.distinct_iff_keys, List.forall_mem_map]
  rfl

theorem Node.HasTextKeys.put {entries : Entries} (keys : (Node.mapping entries).HasTextKeys)
    (key : String) (v : Value) : (Node.mapping (entries.put (.str key) v)).HasTextKeys := by
  rcases entries.keys_put (.str key) v with same | lacks
  · rw [hasTextKeys_iff, same]
    exact hasTextKeys_iff.1 keys
  · rw [Entries.put_of_lacks v lacks]
    refine ⟨fun entry member => ?_, List.pairwise_append.2 ⟨keys.2, List.pairwise_singleton _ _,
      fun entry member other last => ?_⟩⟩
    · rcases List.mem_append.1 member with old | new
      · exact keys.1 entry old
      · rw [List.mem_singleton.1 new]
        exact ⟨key, rfl⟩
    · rw [List.mem_singleton.1 last]
      exact lacks entry member

/-- A new value under a key takes the place of an old one, or goes last. -/
theorem Graph.Forest.put {g : Graph} {depth : Nat} {entries : Entries} {v : Value}
    {ids more : List Nat} (forest : Forest g depth (entries.map (·.2)) ids)
    (added : Forest g depth [v] more) (once : (ids ++ more).Nodup) (key : Scalar) :
    ∃ all, Forest g depth ((entries.put key v).map (·.2)) all ∧ all.Nodup ∧
      ∀ id ∈ all, id ∈ ids ++ more := by
  induction entries generalizing ids with
  | nil =>
    cases forest
    exact ⟨more, added, once, fun _ member => member⟩
  | cons entry entries ih =>
    obtain ⟨k, w⟩ := entry
    obtain ⟨here, rest, rfl, first, others⟩ := forest.exists_cons
    rw [List.append_assoc] at once
    obtain ⟨onceHere, onceRest, apart⟩ := List.nodup_append.1 once
    rw [Entries.put]
    split
    · obtain ⟨_, _, between⟩ := List.nodup_append.1 onceRest
      refine ⟨more ++ rest, added.append others, ?_, fun id member => ?_⟩
      · exact List.nodup_append_comm.1 onceRest
      · rw [List.append_assoc]
        exact List.mem_append_right _ (List.mem_append.2 (List.mem_append.1 member).symm)
    · obtain ⟨all, forest, onceAll, inside⟩ := ih others onceRest
      refine ⟨here ++ all, first.append forest, ?_, fun id member => ?_⟩
      · exact List.nodup_append.2 ⟨onceHere, onceAll, fun id member other inAll =>
          apart id member other (inside other inAll)⟩
      · rw [List.append_assoc]
        rcases List.mem_append.1 member with early | late
        · exact List.mem_append_left _ early
        · exact List.mem_append_right _ (inside id late)

namespace Json

/-! ## What has been read -/

/-- Values whose containers stand in one place each, all of them from a number on. -/
def Grown (start : Nat) (g : Graph) (vs : List Value) : Prop :=
  ∃ depth ids, Forest g depth vs ids ∧ ids.Nodup ∧ ∀ id ∈ ids, start ≤ id

namespace Grown

variable {start : Nat} {g h : Graph} {vs ws : List Value}

theorem nil : Grown start g [] :=
  ⟨0, [], .nil, .nil, by simp⟩

theorem scalar {s : Scalar} {text : String} (written : scalarText s = .ok text) :
    Grown start g [.scalar s] :=
  ⟨0, [], .scalar written .nil, .nil, by simp⟩

/-- Values read earlier and values read later, with containers of their own. -/
theorem exists_both (first : Grown start g vs) (keeps : g.Extends h) (second : Grown g.size h ws) :
    ∃ depth ids more, Forest h depth vs ids ∧ Forest h depth ws more ∧ (ids ++ more).Nodup ∧
      (∀ id ∈ ids, start ≤ id) ∧ ∀ id ∈ more, g.size ≤ id := by
  obtain ⟨depth, ids, forest, once, late⟩ := first
  obtain ⟨deep, more, added, apart, later⟩ := second
  refine ⟨max depth deep, ids, more, (forest.mono (by omega)).congr fun id member => ?_,
    added.mono (by omega), ?_, late, later⟩
  · obtain ⟨node, found, _⟩ := forest.exists_node member
    rw [found, keeps.found found]
  · refine List.nodup_append.2 ⟨once, apart, fun id member other added same => ?_⟩
    have below := forest.lt_size member
    have above := later other added
    omega

theorem append (first : Grown start g vs) (keeps : g.Extends h) (inside : start ≤ g.size)
    (second : Grown g.size h ws) : Grown start h (vs ++ ws) := by
  obtain ⟨depth, ids, more, forest, added, once, late, later⟩ := first.exists_both keeps second
  refine ⟨depth, ids ++ more, forest.append added, once, fun id member => ?_⟩
  rcases List.mem_append.1 member with early | new
  · exact late id early
  · exact Nat.le_trans inside (later id new)

theorem put {entries : Entries} {v : Value} (first : Grown start g (entries.map (·.2)))
    (keeps : g.Extends h) (inside : start ≤ g.size) (second : Grown g.size h [v]) (key : Scalar) :
    Grown start h ((entries.put key v).map (·.2)) := by
  obtain ⟨depth, ids, more, forest, added, once, late, later⟩ := first.exists_both keeps second
  obtain ⟨all, whole, onceAll, within⟩ := forest.put added once key
  refine ⟨depth, all, whole, onceAll, fun id member => ?_⟩
  rcases List.mem_append.1 (within id member) with early | new
  · exact late id early
  · exact Nat.le_trans inside (later id new)

/-- A new container around values that have been read. -/
theorem node {node : Node} (inside : Grown start g node.values) (keys : node.HasTextKeys)
    (le : start ≤ g.size) : Grown start (g.add node).1 [.node g.size] := by
  obtain ⟨depth, ids, forest, once, late⟩ := inside
  have values : Forest (g.add node).1 depth node.values ids := forest.congr fun id member => by
    obtain ⟨other, found, _⟩ := forest.exists_node member
    rw [found, (extends_add g node).found found]
  refine ⟨depth + 1, ids ++ [g.size], .node (get?_add g node) keys values .nil, ?_, ?_⟩
  · refine List.nodup_append.2 ⟨once, List.nodup_singleton _, fun id member other last => ?_⟩
    rw [List.mem_singleton.1 last]
    exact Nat.ne_of_lt (forest.lt_size member)
  · intro id member
    rcases List.mem_append.1 member with early | last
    · exact late id early
    · rwa [List.mem_singleton.1 last]

end Grown

/-! ## Reading -/

theorem digit_lt {d : Char} (digit : d.isDigit = true) : d.toNat - '0'.toNat < 10 := by
  have range : 48 ≤ d.toNat ∧ d.toNat ≤ 57 := Char.isDigit_iff_toNat.1 digit
  change d.toNat - 48 < 10
  omega

theorem foldl_digits_lt {ds : List Char} (all : ∀ d ∈ ds, d.isDigit = true) (n : Nat) :
    ds.foldl (fun n d => 10 * n + (d.toNat - '0'.toNat)) n < (n + 1) * 10 ^ ds.length := by
  induction ds generalizing n with
  | nil => simp
  | cons d ds ih =>
    obtain ⟨digit, others⟩ := List.forall_mem_cons.1 all
    have step : 10 * n + (d.toNat - '0'.toNat) + 1 ≤ (n + 1) * 10 := by
      have := digit_lt digit
      omega
    calc _ < (10 * n + (d.toNat - '0'.toNat) + 1) * 10 ^ ds.length := ih others _
      _ ≤ (n + 1) * 10 * 10 ^ ds.length := Nat.mul_le_mul_right _ step
      _ = (n + 1) * 10 ^ (d :: ds).length := by
        rw [List.length_cons, Nat.pow_succ', Nat.mul_assoc]

theorem digitsValue_lt {ds : List Char} (all : ∀ d ∈ ds, d.isDigit = true) :
    digitsValue ds < 10 ^ ds.length := by
  have below := foldl_digits_lt all 0
  rwa [Nat.zero_add, Nat.one_mul] at below

theorem isDigit_of_wholePart? {text ds rest : List Char}
    (read : wholePart? text = some (ds, rest)) : ∀ d ∈ ds, d.isDigit = true := by
  unfold wholePart? at read
  split at read
  · cases read
    simp
  · split at read
    · cases read
    · next found =>
      cases read
      intro d member
      have own : text.takeWhile Char.isDigit = ds := (Prod.mk.inj found).1
      exact List.all_eq_true.1 (own ▸ List.all_takeWhile) d member

/-- An integer that has been read is not too long to be written. -/
theorem isTooLong_of_wholePart? {text ds rest : List Char}
    (read : wholePart? text = some (ds, rest)) (few : ¬ Numeral.maxDigits < ds.length) {n : Int}
    (value : n.natAbs = digitsValue ds) : Numeral.isTooLong n = false := by
  have small := digitsValue_lt (isDigit_of_wholePart? read)
  have digits : (Nat.toDigits 10 n.natAbs).length ≤ Numeral.maxDigits := by
    rw [value, Nat.length_toDigits_le_iff (by decide) (by decide)]
    exact Nat.lt_of_lt_of_le small (Nat.pow_le_pow_right (by decide) (Nat.not_lt.1 few))
  rw [Numeral.isTooLong, decide_eq_false_iff_not]
  exact Nat.not_lt.2 digits

theorem written_of_number? {negative : Bool} {text rest : List Char} {s : Scalar}
    (read : number? negative text = some (s, rest)) : ∃ written, scalarText s = .ok written := by
  obtain ⟨⟨whole, after⟩, isWhole, read⟩ := Option.bind_eq_some_iff.1 read
  dsimp only at read
  split at read
  · split at read
    · cases read
    · next few =>
      cases read
      have short := isTooLong_of_wholePart? isWhole few
        (n := if negative then -(digitsValue whole : Int) else digitsValue whole)
        (by cases negative <;> simp)
      exact ⟨_, by rw [scalarText, intText, if_neg (by simpa using short)]⟩
  · cases read
    exact ⟨_, rfl⟩

/-- A scalar that has been read can be written. -/
theorem written_of_scalar? {text rest : List Char} {s : Scalar}
    (read : scalar? text = some (s, rest)) : ∃ written, scalarText s = .ok written := by
  unfold scalar? at read
  split at read
  case h_8 => exact written_of_number? read
  case h_9 => exact written_of_number? read
  all_goals
    obtain ⟨_, _, same⟩ := Option.map_eq_some_iff.1 read
    cases same
    exact ⟨_, rfl⟩

/-- Reading a value adds containers, and the value is a tree of them. -/
def ValueGrows (fuel : Nat) : Prop :=
  ∀ text g v rest h, value? fuel text g = some (v, rest, h) → g.Extends h ∧ Grown g.size h [v]

def ItemsGrow (fuel : Nat) : Prop :=
  ∀ text g items rest h, items? fuel text g = some (items, rest, h) →
    g.Extends h ∧ Grown g.size h items

/-- Reading entries adds them to those before, all of whose containers are from a number on. -/
def EntriesGrow (fuel : Nat) : Prop :=
  ∀ text before g entries rest h start, entries? fuel text before g = some (entries, rest, h) →
    start ≤ g.size → Grown start g (before.map (·.2)) → (Node.mapping before).HasTextKeys →
    g.Extends h ∧ Grown start h (entries.map (·.2)) ∧ (Node.mapping entries).HasTextKeys

section

variable {fuel : Nat} (values : ValueGrows fuel)

/-- A container around values that have been read is a tree, too. -/
theorem grows_add {g h : Graph} {node : Node} (keeps : g.Extends h)
    (grown : Grown g.size h node.values) (keys : node.HasTextKeys) :
    g.Extends (h.add node).1 ∧ Grown g.size (h.add node).1 [.node h.size] :=
  ⟨keeps.trans (extends_add h node), grown.node keys keeps.size_le⟩

theorem valueGrows_succ (items : ItemsGrow fuel) (entries : EntriesGrow fuel) :
    ValueGrows (fuel + 1) := by
  intro text g v rest h read
  rw [value?.eq_def] at read
  dsimp only at read
  split at read
  · split at read
    · cases read
      exact grows_add (.refl g) .nil trivial
    · obtain ⟨⟨kept, after, between⟩, inner, read⟩ := Option.bind_eq_some_iff.1 read
      cases read
      obtain ⟨keeps, grown⟩ := items _ _ _ _ _ inner
      exact grows_add keeps grown trivial
  · have none : (Node.mapping []).HasTextKeys := ⟨by simp, .nil⟩
    split at read
    · cases read
      exact grows_add (.refl g) .nil none
    · obtain ⟨⟨kept, after, between⟩, inner, read⟩ := Option.bind_eq_some_iff.1 read
      cases read
      obtain ⟨keeps, grown, keys⟩ := entries _ _ _ _ _ _ _ inner (Nat.le_refl _) .nil none
      exact grows_add keeps grown keys
  · obtain ⟨⟨s, after⟩, scalar, same⟩ := Option.map_eq_some_iff.1 read
    cases same
    obtain ⟨_, written⟩ := written_of_scalar? scalar
    exact ⟨.refl g, .scalar written⟩

include values

theorem itemsGrow_succ (items : ItemsGrow fuel) : ItemsGrow (fuel + 1) := by
  intro text g kept rest h read
  rw [items?] at read
  obtain ⟨⟨item, after, between⟩, one, read⟩ := Option.bind_eq_some_iff.1 read
  obtain ⟨keeps, grown⟩ := values _ _ _ _ _ one
  dsimp only at read
  split at read
  · cases read
    exact ⟨keeps, grown⟩
  · obtain ⟨⟨more, last, all⟩, others, read⟩ := Option.bind_eq_some_iff.1 read
    cases read
    obtain ⟨further, added⟩ := items _ _ _ _ _ others
    exact ⟨keeps.trans further, grown.append further keeps.size_le added⟩
  · cases read

theorem entriesGrow_succ (entries : EntriesGrow fuel) : EntriesGrow (fuel + 1) := by
  intro text before g kept rest h start read le grown keys
  rw [entries?.eq_def] at read
  dsimp only at read
  split at read
  · obtain ⟨⟨key, after⟩, _, read⟩ := Option.bind_eq_some_iff.1 read
    dsimp only at read
    split at read
    · obtain ⟨⟨v, last, between⟩, one, read⟩ := Option.bind_eq_some_iff.1 read
      obtain ⟨keeps, added⟩ := values _ _ _ _ _ one
      have whole := grown.put keeps le added (.str key)
      have texts := keys.put key v
      dsimp only at read
      split at read
      · cases read
        exact ⟨keeps, whole, texts⟩
      · obtain ⟨further, all, named⟩ :=
          entries _ _ _ _ _ _ _ read (Nat.le_trans le keeps.size_le) whole texts
        exact ⟨keeps.trans further, all, named⟩
      · cases read
    · cases read
  · cases read

end

theorem grows (fuel : Nat) : ValueGrows fuel ∧ ItemsGrow fuel ∧ EntriesGrow fuel := by
  induction fuel with
  | zero =>
    refine ⟨?_, ?_, ?_⟩
    · intro text g v rest h read
      cases read
    · intro text g items rest h read
      cases read
    · intro text before g entries rest h start read
      cases read
  | succ fuel ih =>
    obtain ⟨values, items, entries⟩ := ih
    exact ⟨valueGrows_succ items entries, itemsGrow_succ values items,
      entriesGrow_succ values entries⟩

/-- What a JSON text says is a tree. -/
theorem forest_of_read {text : String} {document : Document} (read : read? text = some document) :
    ∃ depth ids, Forest document.graph depth [document.root] ids ∧ ids.Nodup := by
  obtain ⟨⟨v, rest, g⟩, value, read⟩ := Option.bind_eq_some_iff.1 read
  dsimp only at read
  split at read
  · cases read
    obtain ⟨_, depth, ids, forest, once, _⟩ := (grows _).1 _ _ _ _ _ value
    exact ⟨depth, ids, forest, once⟩
  · cases read

end Json

end Typewright
