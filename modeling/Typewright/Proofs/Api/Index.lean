import Typewright.Proofs.Api.Operations

/-!
# The index of endpoints

The index has one entry for each id, and the id of an operation is its path and method in lower
case. So an operation whose path differs from that of a later one in case only loses its entry to
it: in general the entry under an id is that of the last operation with the id, in the place of the
first (`Api.LastWins`).

Main statement: if the paths of a description are texts, its index has one entry for each operation
exactly if no two operations have one id (`Api.indexed_iff`).
-/

namespace Typewright.Api

open Schema

/-- The id of an operation in the index. -/
def indexId (path method : String) : String :=
  Text.lower (path ++ "::" ++ method)

/-! ## Ids -/

/-- A text that the lower case of what it ends with stands at the end of. -/
theorem exists_lowerAfter_append {t : List Char} (settled : ∀ c ∈ t, c.toNat < 128 ∧ c.toLower = c)
    (before front : List Char) :
    ∃ lowered, Text.lowerAfter before (front ++ t) = lowered ++ t := by
  induction front generalizing before with
  | nil =>
    refine ⟨[], ?_⟩
    rw [List.nil_append,
      Text.lowerAfter_of_isAscii before fun c member => (settled c member).1]
    exact (List.map_congr_left fun c member => (settled c member).2).trans (List.map_id _)
  | cons c front ih =>
    obtain ⟨lowered, same⟩ := ih (c :: before)
    rw [List.cons_append, Text.lowerAfter, same, ← List.append_assoc]
    exact ⟨_, rfl⟩

/-- The id of an operation ends with its method. -/
theorem exists_indexId (path : String) {method : String} (isMethod : method ∈ Operation.methods) :
    ∃ front, (indexId path method).toList = front ++ ':' :: method.toList := by
  have settled : ∀ method ∈ Operation.methods, ∀ c ∈ ':' :: method.toList,
      c.toNat < 128 ∧ c.toLower = c := by
    have checked : (Operation.methods.all fun method => (':' :: method.toList).all fun c =>
        decide (c.toNat < 128 ∧ c.toLower = c)) = true := rfl
    simpa only [List.all_eq_true, decide_eq_true_eq] using checked
  have split : (path ++ "::" ++ method).toList =
      (path.toList ++ [':']) ++ ':' :: method.toList := by
    simp
  obtain ⟨front, same⟩ := exists_lowerAfter_append (settled method isMethod) []
    (path.toList ++ [':'])
  refine ⟨front, ?_⟩
  rw [indexId, Text.lower, split, same, String.toList_ofList]

/-- Operations with one id have one method. -/
theorem method_eq_of_indexId {path other method way : String}
    (isMethod : method ∈ Operation.methods) (isWay : way ∈ Operation.methods)
    (same : indexId path method = indexId other way) : method = way := by
  have plain : ∀ method ∈ Operation.methods, ∀ c ∈ method.toList.reverse, (c != ':') = true := by
    have checked : (Operation.methods.all fun method =>
        method.toList.reverse.all (· != ':')) = true := rfl
    simpa only [List.all_eq_true] using checked
  -- the method is what follows the last colon
  have last : ∀ path method, method ∈ Operation.methods →
      (indexId path method).toList.reverse.takeWhile (· != ':') = method.toList.reverse := by
    intro path method isMethod
    obtain ⟨front, ends⟩ := exists_indexId path isMethod
    rw [ends, List.reverse_append, List.reverse_cons, List.append_assoc,
      List.takeWhile_append_of_pos (plain method isMethod)]
    simp
  have reversed := (last path method isMethod).symm.trans
    ((congrArg (fun id : String => id.toList.reverse.takeWhile (· != ':')) same).trans
      (last other way isWay))
  exact String.toList_inj.1 (List.reverse_injective reversed)

/-! ## Operations side by side -/

/-- The paths of a description are texts. -/
def TextPaths (g : Graph) (document : Value) : Prop :=
  ∀ entries, (g.field? document "paths").bind g.entries? = some entries →
    ∀ entry ∈ entries, ∃ text, entry.1 = .str text

/-- Two operations stand in different places. -/
def Apart (a b : Call) : Prop :=
  ¬ (a.path = b.path ∧ a.method = b.method)

section

variable {g : Graph} (wellFormed : g.WellFormed)
include wellFormed

theorem distinct_of_entries? {v : Value} {entries : Entries} (read : g.entries? v = some entries) :
    entries.Distinct := by
  cases v with
  | scalar s => cases read
  | node id => exact wellFormed.distinct (Graph.get?_of_entries? read)

/-- A path item holds one operation for each method. -/
theorem apart_of_callsUnder {path : String} {item : Nat} {found : List Call}
    (given : callsUnder g path item = .ok found) : found.Pairwise Apart := by
  rw [callsUnder_eq] at given
  obtain ⟨all, listed, given⟩ := exists_of_bind_ok given
  cases given
  have distinct : ((g.entries? (.node item)).getD []).Pairwise
      fun earlier later => earlier.1.sameKey later.1 = false := by
    cases read : g.entries? (.node item) with
    | none => exact .nil
    | some entries => exact distinct_of_entries? wellFormed read
  refine List.pairwise_flatten.2 ⟨fun calls inAll => ?_, pairwise_of_mapM listed distinct ?_⟩
  · obtain ⟨entry, _, made⟩ := exists_of_mem_mapM listed inAll
    cases calls with
    | nil => exact .nil
    | cons call rest =>
      obtain ⟨alone, _⟩ := of_mem_callsAt made List.mem_cons_self
      rw [alone]
      exact List.pairwise_singleton _ _
  · intro entry other calls more differ made madeOther call inCalls second inMore ⟨_, sameMethod⟩
    obtain ⟨_, _, _, _, _, rfl, _⟩ := of_mem_callsAt made inCalls
    obtain ⟨_, _, _, _, _, rfl, _⟩ := of_mem_callsAt madeOther inMore
    have same := Scalar.sameKey_str.2 (congrArg Scalar.str sameMethod)
    rw [differ] at same
    cases same

variable {document : Value} (texts : TextPaths g document)
include texts

/-- Path items stand under different texts. -/
theorem definedEntries_apart :
    (definedEntries g (g.field? document "paths")).Pairwise fun a b => a.1 ≠ b.1 := by
  rw [definedEntries]
  cases read : (g.field? document "paths").bind g.entries? with
  | none => exact .nil
  | some entries =>
    obtain ⟨v, _, isMapping⟩ := Option.bind_eq_some_iff.1 read
    rw [Option.getD_some, List.pairwise_filterMap]
    refine (distinct_of_entries? wellFormed isMapping).imp_of_mem ?_
    rintro ⟨key, v⟩ ⟨other, w⟩ member memberOther differ a made b madeOther same
    obtain ⟨_, _, rfl⟩ := Option.map_eq_some_iff.1 made
    obtain ⟨_, _, rfl⟩ := Option.map_eq_some_iff.1 madeOther
    obtain ⟨text, rfl⟩ : ∃ text, key = .str text := texts entries read _ member
    obtain ⟨otherText, rfl⟩ : ∃ text, other = .str text := texts entries read _ memberOther
    have sameText : text = otherText := same
    have sameKey := Scalar.sameKey_str.2 (congrArg Scalar.str sameText)
    rw [show (Scalar.str text).sameKey (.str otherText) = false from differ] at sameKey
    cases sameKey

theorem apart_of_calls {found : List Call} (given : calls g document = .ok found) :
    found.Pairwise Apart := by
  rw [calls] at given
  obtain ⟨_, _, given⟩ := exists_of_bind_ok given
  obtain ⟨all, listed, given⟩ := exists_of_bind_ok given
  cases given
  refine List.pairwise_flatten.2 ⟨fun under inAll => ?_,
    pairwise_of_mapM listed (definedEntries_apart wellFormed texts) ?_⟩
  · obtain ⟨item, _, made⟩ := exists_of_mem_mapM listed inAll
    exact apart_of_callsUnder wellFormed made
  · intro item other under more differ made madeOther a inUnder b inMore same
    obtain ⟨path, _⟩ := exists_of_mem_callsUnder made inUnder
    obtain ⟨pathOther, _⟩ := exists_of_mem_callsUnder madeOther inMore
    exact differ (path.symm.trans (same.1.trans pathOther))

end

/-! ## The index of a description -/

/-- The index of a description, whatever its operations: the entry under an id is that of the last
operation listed with the id, and the ids come in the order of the first operations with them. -/
structure LastWins (g : Graph) (document : Value) (normal : Normal) : Prop where
  ids : ∃ found, calls g document = .ok found ∧ normal.endpoints.map (·.id) =
    (found.map fun call => indexId call.path call.method).eraseDups
  latest : ∀ e ∈ normal.endpoints, ∃ earlier call later,
    calls g document = .ok (earlier ++ call :: later) ∧ e = endpoint normal.naming call ∧
      ∀ other ∈ later, indexId other.path other.method ≠ e.id

/-- The index has one entry for each operation and no others, each under an id of its own and with
the models of its operation. -/
structure Indexed (g : Graph) (document : Value) (normal : Normal) : Prop where
  once : ∀ path method item id operation, Operates g document (.str path) method item id operation →
    (normal.endpoints.filter fun e => e.path == path && e.method == method).length = 1
  only : ∀ e ∈ normal.endpoints, ∃ call path item id operation,
    Describes g document call (.str path) item id operation ∧ e = endpoint normal.naming call
  apart : (normal.endpoints.map (·.id)).Nodup

section

variable {g : Graph} {document : Value} {normal : Normal}
variable (given : normalise g document = .ok normal)
include given

theorem lastWins_of_normalise : LastWins g document normal := by
  obtain ⟨_, found, _, listed, _, _, _, endpoints⟩ := exists_proposals given
  refine ⟨⟨found, listed, ?_⟩, fun e member => ?_⟩
  · rw [endpoints, Keyed.keys_ofList, List.map_map]
    rfl
  · rw [endpoints] at member
    obtain ⟨earlier, later, whole, last⟩ := Keyed.exists_last_of_mem member
    obtain ⟨before, rest, rfl, _, restMade⟩ := List.map_eq_append_iff.1 whole
    obtain ⟨call, after, rfl, rfl, rfl⟩ := List.map_eq_cons_iff.1 restMade
    exact ⟨before, call, after, listed, rfl, fun other inside =>
      last _ (List.mem_map_of_mem inside)⟩

end

/-- Among operations that stand apart, one place has one operation. -/
theorem length_filter_of_apart {l : List Call} (apart : l.Pairwise Apart) {call : Call}
    (member : call ∈ l) :
    (l.filter fun other => other.path == call.path && other.method == call.method).length = 1 := by
  have inside : call ∈ l.filter fun other =>
      other.path == call.path && other.method == call.method := by simp [member]
  have stays := apart.filter fun other => other.path == call.path && other.method == call.method
  have here : ∀ other ∈ l.filter fun other =>
      other.path == call.path && other.method == call.method,
      other.path = call.path ∧ other.method = call.method := by simp
  revert inside stays here
  generalize (l.filter fun other => other.path == call.path && other.method == call.method) = kept
  intro inside stays here
  match kept with
  | [] => cases inside
  | [_] => rfl
  | a :: b :: rest =>
    obtain ⟨path, method⟩ := here a List.mem_cons_self
    obtain ⟨pathToo, methodToo⟩ := here b (List.mem_cons_of_mem _ List.mem_cons_self)
    have differ := (List.pairwise_cons.1 stays).1 b List.mem_cons_self
    exact absurd ⟨path.trans pathToo.symm, method.trans methodToo.symm⟩ differ

section

variable {g : Graph} {document : Value} (texts : TextPaths g document)
include texts

/-- The path of a listed operation is a text that stands in the description. -/
theorem Describes.text {call : Call} {path : Scalar} {item id : Nat} {operation : Entries}
    (describes : Describes g document call path item id operation) : path = .str call.path := by
  obtain ⟨entries, read, member, _⟩ := describes.operates.underPaths
  obtain ⟨text, same⟩ : ∃ text, path = .str text := texts entries read _ member
  rw [describes.path, same]
  rfl

end

/-- No two operations with one method have one id. -/
def NoCollision (g : Graph) (document : Value) : Prop :=
  ∀ path other method item id operation itemOther idOther operationOther,
    Operates g document (.str path) method item id operation →
    Operates g document (.str other) method itemOther idOther operationOther →
    indexId path method = indexId other method → path = other

section

variable {g : Graph} {document : Value} {normal : Normal}

/-- An operation has an entry in an index that has one for each. -/
theorem Indexed.exists_entry (indexed : Indexed g document normal) {path method : String}
    {item id : Nat} {operation : Entries}
    (operates : Operates g document (.str path) method item id operation) :
    ∃ e ∈ normal.endpoints, e.path = path ∧ e.id = indexId path method := by
  obtain ⟨e, alone⟩ := List.length_eq_one_iff.1
    (indexed.once path method item id operation operates)
  have inside := List.mem_filter.1 (alone ▸ List.mem_singleton_self e :
    e ∈ normal.endpoints.filter fun e => e.path == path && e.method == method)
  rw [Bool.and_eq_true, beq_iff_eq, beq_iff_eq] at inside
  obtain ⟨member, rfl, rfl⟩ := inside
  obtain ⟨call, _, _, _, _, _, rfl⟩ := indexed.only e member
  exact ⟨_, member, rfl, rfl⟩

theorem Indexed.noCollision (indexed : Indexed g document normal) : NoCollision g document := by
  intro path other method item id operation itemOther idOther operationOther operates
    operatesOther same
  obtain ⟨e, member, rfl, idHere⟩ := indexed.exists_entry operates
  obtain ⟨f, memberOther, rfl, idThere⟩ := indexed.exists_entry operatesOther
  rw [List.inj_on_of_nodup_map indexed.apart member memberOther
    (idHere.trans (same.trans idThere.symm))]

variable (wellFormed : g.WellFormed) (texts : TextPaths g document)
include wellFormed texts

/-- Without collisions the operations that are listed have ids of their own. -/
theorem indexIds_nodup (noCollision : NoCollision g document) {found : List Call}
    (listed : calls g document = .ok found) :
    (found.map fun call => indexId call.path call.method).Nodup := by
  rw [List.Nodup, List.pairwise_map]
  refine (apart_of_calls wellFormed texts listed).imp_of_mem
    fun {a b} member memberOther differ same => differ ?_
  obtain ⟨path, item, id, operation, describes⟩ := exists_of_mem_calls listed member
  obtain ⟨other, itemOther, idOther, operationOther, describesOther⟩ :=
    exists_of_mem_calls listed memberOther
  have method := method_eq_of_indexId describes.operates.isMethod
    describesOther.operates.isMethod same
  have operates := describes.operates
  have operatesOther := describesOther.operates
  rw [describes.text texts, method] at operates
  rw [describesOther.text texts] at operatesOther
  rw [method] at same
  exact ⟨noCollision _ _ _ _ _ _ _ _ _ operates operatesOther same, method⟩

theorem NoCollision.indexed (noCollision : NoCollision g document)
    (given : normalise g document = .ok normal) : Indexed g document normal := by
  obtain ⟨_, found, _, listed, _, _, _, endpoints⟩ := exists_proposals given
  have once : ((found.map (endpoint normal.naming)).map (·.id)).Nodup := by
    rw [List.map_map]
    exact indexIds_nodup wellFormed texts noCollision listed
  rw [Keyed.ofList_of_nodup once] at endpoints
  refine ⟨fun path method item id operation operates => ?_, fun e member => ?_, endpoints ▸ once⟩
  · obtain ⟨call, member, rfl, describes⟩ := exists_call_of_operates listed operates
    have text := describes.text texts
    injection text with samePath
    rw [endpoints, List.filter_map, List.length_map, samePath]
    exact length_filter_of_apart (apart_of_calls wellFormed texts listed) member
  · rw [endpoints] at member
    obtain ⟨call, inCalls, rfl⟩ := List.mem_map.1 member
    obtain ⟨path, item, id, operation, describes⟩ := exists_of_mem_calls listed inCalls
    exact ⟨call, call.path, item, id, operation, describes.text texts ▸ describes, rfl⟩

/-- The index of a description whose paths are texts has one entry for each operation exactly if no
two operations with one method have one id; in every case the last operation with an id has it. -/
theorem indexed_iff (given : normalise g document = .ok normal) :
    LastWins g document normal ∧ (Indexed g document normal ↔ NoCollision g document) :=
  ⟨lastWins_of_normalise given, Indexed.noCollision,
    fun noCollision => noCollision.indexed wellFormed texts given⟩

end

/-- Operations under paths that differ in more than case. -/
def plainPaths : Graph := ⟨#[
  .mapping [(.str "openapi", .str "3.0.0"), (.str "paths", .node 1)],
  .mapping [(.str "/a", .node 2), (.str "/a/\x7bId\x7d", .node 3)],
  .mapping [(.str "get", .node 4), (.str "post", .node 5)],
  .mapping [(.str "get", .node 6)],
  .mapping [], .mapping [], .mapping []]⟩

theorem textPaths_of_keys {g : Graph} {document : Value} (entries : Entries)
    (read : (g.field? document "paths").bind g.entries? = some entries)
    (texts : ∀ entry ∈ entries, ∃ text, entry.1 = .str text) : TextPaths g document := by
  intro other readToo
  rw [read] at readToo
  cases readToo
  exact texts

/-- What a check of the listed operations says about collisions. -/
theorem noCollision_of_calls {g : Graph} {document : Value} {found : List Call}
    (listed : calls g document = .ok found)
    (checked : ∀ a ∈ found, ∀ b ∈ found, a.method = b.method →
      indexId a.path a.method = indexId b.path b.method → a.path = b.path) :
    NoCollision g document := by
  intro path other method item id operation itemOther idOther operationOther operates
    operatesOther same
  obtain ⟨a, member, methodHere, describes⟩ := exists_call_of_operates listed operates
  obtain ⟨b, memberOther, methodThere, describesOther⟩ :=
    exists_call_of_operates listed operatesOther
  have pathHere : a.path = path := describes.path
  have pathThere : b.path = other := describesOther.path
  rw [← pathHere, ← pathThere] at same ⊢
  refine checked a member b memberOther (methodHere.trans methodThere.symm) ?_
  rwa [methodHere, methodThere]

theorem indexed_iff_plainPaths : plainPaths.WellFormed ∧ TextPaths plainPaths (.node 0) ∧
    ∃ normal, normalise plainPaths (.node 0) = .ok normal ∧
      normal.endpoints.map (·.id) = ["/a::get", "/a::post", "/a/\x7bid\x7d::get"] ∧
      LastWins plainPaths (.node 0) normal ∧ Indexed plainPaths (.node 0) normal := by
  have wellFormed : plainPaths.WellFormed := Graph.wellFormed_of_checked (by decide)
  have texts : TextPaths plainPaths (.node 0) :=
    textPaths_of_keys [(.str "/a", .node 2), (.str "/a/\x7bId\x7d", .node 3)] rfl (by simp)
  obtain ⟨found, listed, rfl⟩ : ∃ found, calls plainPaths (.node 0) = .ok found ∧
      id found = [⟨"/a", "get", none, []⟩, ⟨"/a", "post", none, []⟩,
        ⟨"/a/\x7bId\x7d", "get", none, []⟩] := exists_of_toOption_map (by decide +kernel)
  have noCollision : NoCollision plainPaths (.node 0) :=
    noCollision_of_calls listed (by decide +kernel)
  obtain ⟨normal, given, ids⟩ : ∃ normal, normalise plainPaths (.node 0) = .ok normal ∧
      normal.endpoints.map (·.id) = ["/a::get", "/a::post", "/a/\x7bid\x7d::get"] :=
    exists_of_toOption_map (by decide +kernel)
  obtain ⟨lastWins, iff⟩ := indexed_iff wellFormed texts given
  exact ⟨wellFormed, texts, normal, given, ids, lastWins, iff.2 noCollision⟩

/-- Operations under two paths that differ in case only. -/
def casePaths : Graph := ⟨#[
  .mapping [(.str "openapi", .str "3.0.0"), (.str "paths", .node 1)],
  .mapping [(.str "/A", .node 2), (.str "/a", .node 3)],
  .mapping [(.str "get", .node 4)],
  .mapping [(.str "get", .node 5)],
  .mapping [], .mapping []]⟩

/-- The first of the two operations has no entry. -/
theorem not_indexed_casePaths : casePaths.WellFormed ∧ TextPaths casePaths (.node 0) ∧
    ∃ normal, normalise casePaths (.node 0) = .ok normal ∧
      ¬ Indexed casePaths (.node 0) normal := by
  refine ⟨Graph.wellFormed_of_checked (by decide),
    textPaths_of_keys [(.str "/A", .node 2), (.str "/a", .node 3)] rfl (by simp), ?_⟩
  have operates : Operates casePaths (.node 0) (.str "/A") "get" 2 4 [] :=
    ⟨⟨_, rfl, List.mem_cons_self, rfl⟩, ⟨_, rfl, List.mem_cons_self, rfl⟩, by decide, rfl⟩
  obtain ⟨normal, given, none⟩ : ∃ normal, normalise casePaths (.node 0) = .ok normal ∧
      (normal.endpoints.filter fun e => e.path == "/A" && e.method == "get").length = 0 :=
    exists_of_toOption_map (by decide +kernel)
  refine ⟨normal, given, fun indexed => ?_⟩
  exact absurd (none.symm.trans (indexed.once _ _ _ _ _ operates)) (by decide)

end Typewright.Api
