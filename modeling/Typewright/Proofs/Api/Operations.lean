import Typewright.Proofs.Api.Normal

/-!
# The operations of a description

What normalising a description goes through, said of the description alone: the mappings without a
reference that a section holds (`Api.Entry`), and the operations, which path items hold under the
words for methods (`Api.Operates`). Every operation is listed (`Api.exists_call_of_operates`) and
nothing else is (`Api.exists_of_mem_calls`).
-/

namespace Typewright.Api

open Schema

variable {g : Graph}

/-- A section of a description holds a mapping that is no reference under a key. -/
def Entry (g : Graph) (part : Option Value) (key : Scalar) (id : Nat) : Prop :=
  ∃ entries, part.bind g.entries? = some entries ∧ (key, .node id) ∈ entries ∧
    defined? g (.node id) = some id

theorem mem_definedEntries_iff {part : Option Value} {text : String} {id : Nat} :
    (text, id) ∈ definedEntries g part ↔ ∃ key, Entry g part key id ∧ Display.scalar key = text := by
  rw [definedEntries, List.mem_filterMap]
  constructor
  · rintro ⟨⟨key, v⟩, member, found⟩
    obtain ⟨schema, defined, same⟩ := Option.map_eq_some_iff.1 found
    cases same
    obtain ⟨rfl, _⟩ := defined?_eq_some defined
    cases read : part.bind g.entries? with
    | none =>
      rw [read] at member
      cases member
    | some entries =>
      rw [read] at member
      exact ⟨key, ⟨entries, read, member, defined⟩, rfl⟩
  · rintro ⟨key, ⟨entries, read, member, defined⟩, rfl⟩
    rw [read]
    exact ⟨(key, .node id), member, by simp [defined]⟩

/-- A description has an operation under a path and a method: the path item is a mapping without a
reference, and so is what it holds under the method. -/
structure Operates (g : Graph) (document : Value) (path : Scalar) (method : String)
    (item id : Nat) (operation : Entries) : Prop where
  underPaths : Entry g (g.field? document "paths") path item
  underItem : Entry g (some (.node item)) (.str method) id
  isMethod : method ∈ Operation.methods
  found : g.get? id = some (.mapping operation)

/-- A call says of an operation where it stands and which schemas it has. -/
structure Describes (g : Graph) (document : Value) (call : Call) (path : Scalar) (item id : Nat)
    (operation : Entries) : Prop where
  operates : Operates g document path call.method item id operation
  path : call.path = Display.scalar path
  request : Operation.requestSchema? g operation = .ok call.request
  responses : call.responses = Operation.responseSchemas g operation
  short : Operation.hasLongStatus g operation = false

/-! ## What an entry of a path item gives -/

/-- The operation that an entry of a path item is, if it is one. -/
def callsAt (g : Graph) (path : String) (entry : Scalar × Value) : Except Error (List Call) :=
  match entry.1, g.entries? entry.2 with
  | .str method, some operation =>
    if Operation.isMethod entry.1 && isDefined g entry.2 then do
      let request ← Operation.requestSchema? g operation
      Error.refuseLong (Operation.hasLongStatus g operation)
      return [{ path, method, request, responses := Operation.responseSchemas g operation }]
    else pure []
  | _, _ => pure []

theorem callsUnder_eq (g : Graph) (path : String) (item : Nat) :
    callsUnder g path item =
      (((g.entries? (.node item)).getD []).mapM (callsAt g path) >>= fun calls =>
        pure calls.flatten) := rfl

/-- An entry that gives an operation holds a mapping without a reference under a method. -/
theorem of_mem_callsAt {path : String} {entry : Scalar × Value} {found : List Call}
    (given : callsAt g path entry = .ok found) {call : Call} (member : call ∈ found) :
    found = [call] ∧ call.path = path ∧ call.method ∈ Operation.methods ∧ ∃ id operation,
      entry = (.str call.method, .node id) ∧ defined? g (.node id) = some id ∧
      g.get? id = some (.mapping operation) ∧
      Operation.requestSchema? g operation = .ok call.request ∧
      call.responses = Operation.responseSchemas g operation ∧
      Operation.hasLongStatus g operation = false := by
  obtain ⟨key, v⟩ := entry
  unfold callsAt at given
  dsimp only at given
  split at given
  · next method operation read =>
    split at given
    · next usable =>
      obtain ⟨request, asked, given⟩ := exists_of_bind_ok given
      obtain ⟨_, checked, given⟩ := exists_of_bind_ok given
      cases given
      obtain rfl := List.mem_singleton.1 member
      rw [Bool.and_eq_true, isDefined, Option.isSome_iff_exists] at usable
      obtain ⟨isMethod, id, defined⟩ := usable
      obtain ⟨rfl, _⟩ := defined?_eq_some defined
      exact ⟨rfl, rfl, by simpa [Operation.isMethod] using isMethod, id, operation, rfl, defined,
        Graph.get?_of_entries? read, asked, rfl, refuseLong_eq_ok_iff.1 checked⟩
    · cases given
      cases member
  · cases given
    cases member

/-- What a mapping without a reference under a method gives. -/
theorem callsAt_operation {path method : String} {id : Nat} {operation : Entries}
    {found : List Call} (given : callsAt g path (.str method, .node id) = .ok found)
    (isMethod : method ∈ Operation.methods) (defined : defined? g (.node id) = some id)
    (read : g.get? id = some (.mapping operation)) :
    ∃ request, Operation.requestSchema? g operation = .ok request ∧
      Operation.hasLongStatus g operation = false ∧
      found = [⟨path, method, request, Operation.responseSchemas g operation⟩] := by
  have usable : (Operation.isMethod (.str method) && isDefined g (.node id)) = true := by
    simp [Operation.isMethod, isMethod, isDefined, defined]
  unfold callsAt at given
  dsimp only at given
  rw [Graph.entries?_of_get? read] at given
  dsimp only at given
  rw [if_pos usable] at given
  obtain ⟨request, asked, given⟩ := exists_of_bind_ok given
  obtain ⟨_, checked, given⟩ := exists_of_bind_ok given
  cases given
  exact ⟨request, asked, refuseLong_eq_ok_iff.1 checked, rfl⟩

section

variable {path : String} {item : Nat} {found : List Call}
variable (given : callsUnder g path item = .ok found)
include given

/-- An operation under a path item is listed. -/
theorem exists_callUnder {method : String} {id : Nat} {operation : Entries}
    (inside : Entry g (some (.node item)) (.str method) id)
    (isMethod : method ∈ Operation.methods) (read : g.get? id = some (.mapping operation)) :
    ∃ request, Operation.requestSchema? g operation = .ok request ∧
      Operation.hasLongStatus g operation = false ∧
      ⟨path, method, request, Operation.responseSchemas g operation⟩ ∈ found := by
  rw [callsUnder_eq] at given
  obtain ⟨all, listed, given⟩ := exists_of_bind_ok given
  cases given
  obtain ⟨entries, holder, inside, defined⟩ := inside
  have holder : g.entries? (.node item) = some entries := holder
  rw [holder] at listed
  obtain ⟨calls, inAll, made⟩ := exists_result_of_mem listed inside
  obtain ⟨request, asked, short, rfl⟩ := callsAt_operation made isMethod defined read
  exact ⟨request, asked, short, List.mem_flatten.2 ⟨_, inAll, List.mem_singleton_self _⟩⟩

/-- What is listed for a path item is an operation of it. -/
theorem exists_of_mem_callsUnder {call : Call} (member : call ∈ found) :
    call.path = path ∧ call.method ∈ Operation.methods ∧ ∃ id operation,
      Entry g (some (.node item)) (.str call.method) id ∧
      g.get? id = some (.mapping operation) ∧
      Operation.requestSchema? g operation = .ok call.request ∧
      call.responses = Operation.responseSchemas g operation ∧
      Operation.hasLongStatus g operation = false := by
  rw [callsUnder_eq] at given
  obtain ⟨all, listed, given⟩ := exists_of_bind_ok given
  cases given
  obtain ⟨calls, inAll, inCalls⟩ := List.mem_flatten.1 member
  obtain ⟨entry, inside, made⟩ := exists_of_mem_mapM listed inAll
  obtain ⟨_, samePath, isMethod, id, operation, rfl, defined, facts⟩ := of_mem_callsAt made inCalls
  refine ⟨samePath, isMethod, id, operation, ?_, facts⟩
  cases holder : g.entries? (.node item) with
  | none =>
    rw [holder] at inside
    cases inside
  | some entries =>
    rw [holder] at inside
    exact ⟨entries, holder, inside, defined⟩

end

/-! ## The operations of all path items -/

section

variable {document : Value} {found : List Call} (given : calls g document = .ok found)
include given

/-- Every operation of a description is listed. -/
theorem exists_call_of_operates {path : Scalar} {method : String} {item id : Nat}
    {operation : Entries} (operates : Operates g document path method item id operation) :
    ∃ call ∈ found, call.method = method ∧ Describes g document call path item id operation := by
  rw [calls] at given
  obtain ⟨_, _, given⟩ := exists_of_bind_ok given
  obtain ⟨all, listed, given⟩ := exists_of_bind_ok given
  cases given
  obtain ⟨under, inAll, made⟩ := exists_result_of_mem listed
    (mem_definedEntries_iff.2 ⟨path, operates.underPaths, rfl⟩)
  obtain ⟨request, asked, short, member⟩ :=
    exists_callUnder made operates.underItem operates.isMethod operates.found
  exact ⟨_, List.mem_flatten.2 ⟨under, inAll, member⟩, rfl, operates, rfl, asked, rfl, short⟩

/-- Nothing else is listed. -/
theorem exists_of_mem_calls {call : Call} (member : call ∈ found) :
    ∃ path item id operation, Describes g document call path item id operation := by
  rw [calls] at given
  obtain ⟨_, _, given⟩ := exists_of_bind_ok given
  obtain ⟨all, listed, given⟩ := exists_of_bind_ok given
  cases given
  obtain ⟨under, inAll, inUnder⟩ := List.mem_flatten.1 member
  obtain ⟨⟨text, item⟩, isItem, made⟩ := exists_of_mem_mapM listed inAll
  obtain ⟨path, entry, rfl⟩ := mem_definedEntries_iff.1 isItem
  obtain ⟨samePath, isMethod, id, operation, inside, read, asked, same, short⟩ :=
    exists_of_mem_callsUnder made inUnder
  exact ⟨path, item, id, operation, ⟨entry, inside, isMethod, read⟩, samePath, asked, same, short⟩

end

end Typewright.Api
