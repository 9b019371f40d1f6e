import Typewright.Json.Writer
import Typewright.Proofs.Outcome

/-!
# What a JSON text is written from

A container is written from its keys and values one after the other (`Node.parts`). The writer gives
a text if each of them has one (`Json.parts_of_textOf_ok`) and otherwise stops at the first that has
none (`Json.parts_of_textOf_error`).
-/

namespace Typewright

/-- What a container is written from: a key of an entry, or a value. -/
inductive Part
  | key (s : Scalar)
  | value (v : Value)
  deriving DecidableEq, Repr

/-- The parts of a container in the order in which they are written, each key before its value. -/
def Node.parts : Node → List Part
  | mapping entries => entries.flatMap fun (key, v) => [.key key, .value v]
  | sequence items => items.map .value

theorem Node.value_mem_parts_iff {node : Node} {v : Value} :
    .value v ∈ node.parts ↔ v ∈ node.values := by
  cases node with
  | mapping entries => simp [parts, values]
  | sequence items => simp [parts, values]

theorem Node.key_mem_parts_iff {node : Node} {s : Scalar} :
    .key s ∈ node.parts ↔ ∃ entries, node = .mapping entries ∧ ∃ entry ∈ entries, entry.1 = s := by
  cases node with
  | mapping entries => simp [parts, eq_comm]
  | sequence items => simp [parts]

namespace Json

open Text

/-- The text of a part. The containers around it are given; the fuel bounds the depth. -/
def partText (g : Graph) (layout : Layout) (fuel : Nat) (around : List Nat) :
    Part → Except WriteFault String
  | .key s => keyText s
  | .value v => textOf g layout fuel around v

/-- The text of an entry of a mapping. -/
def entryText (g : Graph) (layout : Layout) (fuel : Nat) (around : List Nat)
    (entry : Scalar × Value) : Except WriteFault String := do
  let key ← keyText entry.1
  let text ← textOf g layout fuel around entry.2
  return quote key ++ ": " ++ text

/-- Writing stops at a part: all parts before it have texts, and it has none. -/
def StopsWith (text : Part → Except WriteFault String) (parts : List Part) (fault : WriteFault) :
    Prop :=
  ∃ front part back, parts = front ++ part :: back ∧
    (∀ early ∈ front, ∃ shown, text early = .ok shown) ∧ text part = .error fault

section

variable {g : Graph} {layout : Layout} {fuel id : Nat} {around : List Nat}

theorem textOf_mapping {entries : Entries} (outside : id ∉ around)
    (found : g.get? id = some (.mapping entries)) :
    textOf g layout (fuel + 1) around (.node id) =
      (entries.mapM (entryText g layout fuel (id :: around))).map
        (bracketed layout around.length "\x7b" "\x7d") := by
  rw [textOf, if_neg (by simpa using outside), found]
  change (entries.mapM (entryText g layout fuel (id :: around)) >>= fun items =>
    pure (bracketed layout around.length "\x7b" "\x7d" items)) = _
  cases entries.mapM (entryText g layout fuel (id :: around)) <;> rfl

theorem textOf_sequence {items : List Value} (outside : id ∉ around)
    (found : g.get? id = some (.sequence items)) :
    textOf g layout (fuel + 1) around (.node id) =
      (items.mapM (textOf g layout fuel (id :: around))).map
        (bracketed layout around.length "[" "]") := by
  rw [textOf, if_neg (by simpa using outside), found]
  change (items.mapM (textOf g layout fuel (id :: around)) >>= fun items =>
    pure (bracketed layout around.length "[" "]" items)) = _
  cases items.mapM (textOf g layout fuel (id :: around)) <;> rfl

/-- If all entries have texts, all keys and values do. -/
theorem parts_of_entries {entries : Entries}
    (written : ∀ entry ∈ entries, ∃ text, entryText g layout fuel around entry = .ok text) :
    ∀ part ∈ (Node.mapping entries).parts,
      ∃ text, partText g layout fuel around part = .ok text := by
  intro part member
  obtain ⟨entry, isEntry, isPart⟩ := List.mem_flatMap.1 member
  obtain ⟨text, one⟩ := written entry isEntry
  obtain ⟨keyShown, inKey, one⟩ := exists_of_bind_ok one
  obtain ⟨valueShown, inValue, _⟩ := exists_of_bind_ok one
  simp only [List.mem_cons, List.not_mem_nil, or_false] at isPart
  rcases isPart with rfl | rfl
  · exact ⟨keyShown, inKey⟩
  · exact ⟨valueShown, inValue⟩

/-- Entries without a text stop at a key or at a value. -/
theorem stopsWith_of_entries {entries : Entries} {fault : WriteFault}
    (failed : entries.mapM (entryText g layout fuel around) = .error fault) :
    StopsWith (partText g layout fuel around) (Node.mapping entries).parts fault := by
  obtain ⟨front, entry, back, rfl, before, one⟩ := exists_first_of_mapM_error failed
  have early := parts_of_entries before
  have whole : (Node.mapping (front ++ entry :: back)).parts = (Node.mapping front).parts ++
      .key entry.1 :: .value entry.2 :: (Node.mapping back).parts := by
    simp [Node.parts]
  rcases exists_of_bind_error one with inKey | ⟨keyShown, inKey, one⟩
  · exact ⟨_, _, _, whole, early, inKey⟩
  rcases exists_of_bind_error one with inValue | ⟨_, _, impossible⟩
  · refine ⟨(Node.mapping front).parts ++ [.key entry.1], .value entry.2, _,
      by rw [whole, List.append_assoc]; rfl, fun part member => ?_, inValue⟩
    rcases List.mem_append.1 member with inFront | last
    · exact early part inFront
    · rw [List.mem_singleton.1 last]
      exact ⟨keyShown, inKey⟩
  · cases impossible

/-- A container with a text is not around itself, and all its parts have texts. -/
theorem parts_of_textOf_ok {text : String}
    (written : textOf g layout (fuel + 1) around (.node id) = .ok text) :
    id ∉ around ∧ ∃ node, g.get? id = some node ∧
      ∀ part ∈ node.parts, ∃ text, partText g layout fuel (id :: around) part = .ok text := by
  have outside : id ∉ around := fun inside => by
    rw [textOf, if_pos (by simpa using inside)] at written
    cases written
  refine ⟨outside, ?_⟩
  cases found : g.get? id with
  | none =>
    rw [textOf, if_neg (by simpa using outside), found] at written
    cases written
  | some node =>
    refine ⟨node, rfl, ?_⟩
    cases node with
    | mapping entries =>
      rw [textOf_mapping outside found] at written
      obtain ⟨texts, all, _⟩ := exists_of_map_ok written
      refine parts_of_entries fun entry isEntry => ?_
      obtain ⟨text, _, one⟩ := exists_result_of_mem all isEntry
      exact ⟨text, one⟩
    | sequence items =>
      rw [textOf_sequence outside found] at written
      obtain ⟨texts, all, _⟩ := exists_of_map_ok written
      intro part member
      obtain ⟨v, held, rfl⟩ := List.mem_map.1 member
      obtain ⟨text, _, one⟩ := exists_result_of_mem all held
      exact ⟨text, one⟩

/-- Why a container has no text: it is around itself, it is missing, or writing stops at a part. -/
theorem parts_of_textOf_error {fault : WriteFault}
    (failed : textOf g layout (fuel + 1) around (.node id) = .error fault) :
    (fault = .circular ∧ id ∈ around) ∨
      (fault = .unsupported ∧ id ∉ around ∧ g.get? id = none) ∨
      (id ∉ around ∧ ∃ node, g.get? id = some node ∧
        StopsWith (partText g layout fuel (id :: around)) node.parts fault) := by
  by_cases inside : id ∈ around
  · rw [textOf, if_pos (by simpa using inside)] at failed
    cases failed
    exact Or.inl ⟨rfl, inside⟩
  refine Or.inr ?_
  cases found : g.get? id with
  | none =>
    rw [textOf, if_neg (by simpa using inside), found] at failed
    cases failed
    exact Or.inl ⟨rfl, inside, rfl⟩
  | some node =>
    refine Or.inr ⟨inside, node, rfl, ?_⟩
    cases node with
    | mapping entries =>
      rw [textOf_mapping inside found] at failed
      exact stopsWith_of_entries (error_of_map_error failed)
    | sequence items =>
      rw [textOf_sequence inside found] at failed
      obtain ⟨front, v, back, rfl, before, one⟩ :=
        exists_first_of_mapM_error (error_of_map_error failed)
      refine ⟨front.map .value, .value v, back.map .value, List.map_append,
        fun part member => ?_, one⟩
      obtain ⟨w, held, rfl⟩ := List.mem_map.1 member
      exact before w held

end

end Json

end Typewright
