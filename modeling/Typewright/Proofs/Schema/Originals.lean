import Typewright.Proofs.Compile.Parts
import Typewright.Proofs.Schema.Images

/-!
# The originals of copied schemas

What the copy of a schema holds, read back: every value in it has its original at the same place in
the document (`Standalone.Placed`). So what the compiler takes for a schema inside a copy stands
for what it would take for a schema inside the original (`Placed.exists_original_child`,
`Placed.exists_original_further`).
-/

namespace Typewright.Standalone

open Schema

/-- A value inside a schema with what stands for it in the copy. A container without a name is the
schema's own. -/
structure HasCopy (g copied : Graph) (naming : Naming) (root : Nat) (image : Nat → Nat)
    (v w : Value) : Prop where
  stands : StandsFor copied naming (KeptOwn g naming root) image v w
  own : ∀ id, v = .node id → naming.isNamed id = false → KeptOwn g naming root id

/-- A value inside a copy is a scalar or stands for one of the given values. -/
def HasOriginal (g copied : Graph) (naming : Naming) (root : Nat) (image : Nat → Nat)
    (originals : List Value) (w : Value) : Prop :=
  (∃ s, w = .scalar s) ∨ ∃ v ∈ originals, HasCopy g copied naming root image v w

/-- The copy of a named schema of a document, in place in a graph: what the image of an own
container holds has its originals in the container, and no key but a title or a description is lost.
For the root nothing is said about these two. -/
structure Placed (g copied : Graph) (naming : Naming) (root : Nat) (image : Nat → Nat) : Prop where
  wellFormed : g.WellFormed
  plain : ∀ id, naming.isNamed id = true → defined? g (.node id) = some id
  named : naming.isNamed root = true
  images : ∀ id, KeptOwn g naming root id →
    (∃ items copies, g.get? id = some (.sequence items) ∧
      copied.get? (image id) = some (.sequence copies) ∧
      ∀ w ∈ copies, ∃ v ∈ items, HasCopy g copied naming root image v w) ∨
    ∃ entries copies, g.get? id = some (.mapping entries) ∧
      copied.get? (image id) = some (.mapping copies) ∧
      (∀ entry ∈ entries, entry.1 ≠ .str "title" → entry.1 ≠ .str "description" →
        ∃ copy ∈ copies, copy.1 = entry.1) ∧
      ∀ copy ∈ copies, (id = root → copy.1 ≠ .str "title" ∧ copy.1 ≠ .str "description") →
        ∃ v, (copy.1, v) ∈ entries ∧ HasCopy g copied naming root image v copy.2

section

variable {g copied larger : Graph} {naming : Naming} {root : Nat} {image : Nat → Nat}

theorem StandsFor.extends {own : Nat → Prop} {v w : Value}
    (one : StandsFor copied naming own image v w) (keeps : copied.Extends larger) :
    StandsFor larger naming own image v w := by
  cases one with
  | scalar s => exact .scalar s
  | own unnamed => exact .own unnamed
  | reference isNamed held apart => exact .reference isNamed (keeps.found held) apart

theorem hasCopy_of_kept {id : Nat} (own : KeptOwn g naming root id) {entries : Entries}
    (found : g.get? id = some (.mapping entries)) {entry : Scalar × Value}
    (kept : entry ∈ keptEntries (dependencies g (.node root)) id entries) {w : Value}
    (one : StandsFor copied naming (KeptOwn g naming root) image entry.2 w) :
    HasCopy g copied naming root image entry.2 w := by
  refine ⟨one, fun child same unnamed => own.tail ⟨?_, unnamed⟩⟩
  rw [keptSuccessors, found]
  exact List.mem_filterMap.2 ⟨entry, kept, by rw [same]; rfl⟩

theorem hasCopy_of_item {id : Nat} (own : KeptOwn g naming root id) {items : List Value}
    (found : g.get? id = some (.sequence items)) {v w : Value} (member : v ∈ items)
    (one : StandsFor copied naming (KeptOwn g naming root) image v w) :
    HasCopy g copied naming root image v w := by
  refine ⟨one, fun child same unnamed => own.tail ⟨?_, unnamed⟩⟩
  rw [keptSuccessors, found]
  exact List.mem_filterMap.2 ⟨v, member, by rw [same]; rfl⟩

/-- A copy that mirrors its schema is in place, also in larger graphs. -/
theorem placed_of_mirrors {exempt : Entries → Prop} (wellFormed : g.WellFormed)
    (plain : ∀ id, naming.isNamed id = true → defined? g (.node id) = some id)
    (named : naming.isNamed root = true)
    (mirrors : Mirrors g copied naming root (keptSuccessors g (dependencies g (.node root)))
      exempt image) (keeps : copied.Extends larger) : Placed g larger naming root image := by
  refine ⟨wellFormed, plain, named, fun id own => ?_⟩
  have bound := own_lt_size wellFormed (lt_size_of_defined (plain root named)) (own_of_kept own)
  obtain ⟨node, found⟩ := Graph.exists_get?_of_lt bound
  cases node with
  | sequence items =>
    obtain ⟨copies, held, all⟩ := mirrors.sequence id items own found
    refine Or.inl ⟨items, copies, found, keeps.found held, fun w member => ?_⟩
    obtain ⟨v, present, one⟩ := exists_original_of_mem all member
    exact ⟨v, present, hasCopy_of_item own found present (one.extends keeps)⟩
  | mapping entries =>
    refine Or.inr ⟨entries, ?_⟩
    have original : ∀ (fewer copies : Entries),
        fewer ⊆ keptEntries (dependencies g (.node root)) id entries →
        List.Forall₂ (EntryStandsFor copied naming (KeptOwn g naming root) image) fewer copies →
        ∀ copy ∈ copies, ∃ v, (copy.1, v) ∈ entries ∧
          HasCopy g larger naming root image v copy.2 := by
      intro fewer copies kept all copy member
      obtain ⟨entry, present, key, one⟩ := exists_original_of_mem all member
      refine ⟨entry.2, ?_, hasCopy_of_kept own found (kept present) (one.extends keeps)⟩
      rw [key]
      exact List.mem_of_mem_filter (kept present)
    have kept : ∀ entry ∈ entries, entry.1 ≠ .str "title" →
        entry ∈ keptEntries (dependencies g (.node root)) id entries := fun entry member untitled =>
      List.mem_filter.2 ⟨member, by simp [untitled]⟩
    by_cases isRoot : id = root
    · rw [isRoot] at found original kept ⊢
      obtain ⟨name, copies, _, held, all, _⟩ := mirrors.root entries found
      refine ⟨_, found, keeps.found held, fun entry member untitled undescribed => ?_,
        fun copy member others => ?_⟩
      · obtain ⟨copy, present, one⟩ := exists_partner_of_mem all
          (List.mem_filter.2 ⟨kept entry member untitled, by simpa using undescribed⟩)
        exact ⟨copy, List.mem_cons_of_mem _ (List.mem_of_mem_filter present), one.1⟩
      · obtain ⟨untitled, undescribed⟩ := others rfl
        have fewer : withoutDescription (keptEntries (dependencies g (.node root)) root entries) ⊆
            keptEntries (dependencies g (.node root)) root entries :=
          fun _ present => List.mem_of_mem_filter present
        refine original _ _ fewer all copy ?_
        rcases List.mem_cons.1 member with title | later
        · rw [title] at untitled
          exact absurd rfl untitled
        · exact List.mem_filter.2 ⟨later, by simpa using undescribed⟩
    · obtain ⟨copies, held, all⟩ := mirrors.mapping id entries own isRoot found
      refine ⟨copies, found, keeps.found held, fun entry member untitled _ => ?_,
        fun copy member _ => original _ _ (List.Subset.refl _) all copy member⟩
      obtain ⟨copy, present, one⟩ := exists_partner_of_mem all (kept entry member untitled)
      exact ⟨copy, present, one.1⟩

namespace Placed

variable (placed : Placed g copied naming root image)
include placed

/-- A named schema is a mapping. -/
theorem exists_entries_of_idOf? {id : Nat} {name : String} (isNamed : naming.idOf? id = some name) :
    ∃ entries, g.get? id = some (.mapping entries) := by
  obtain ⟨_, entries, found, _⟩ :=
    defined?_eq_some (placed.plain id (Naming.isNamed_of_idOf? isNamed))
  exact ⟨entries, found⟩

/-! ## Copied values -/

section

variable {v w : Value} (hasCopy : HasCopy g copied naming root image v w)
include hasCopy

/-- A list in a copy is the copy of a list, item by item. -/
theorem exists_items {copies : List Value} (read : copied.items? w = some copies) :
    ∃ items, g.items? v = some items ∧
      ∀ w ∈ copies, ∃ v ∈ items, HasCopy g copied naming root image v w := by
  obtain ⟨stands, own⟩ := hasCopy
  cases stands with
  | scalar s => cases read
  | @own id unnamed =>
    have held := Graph.get?_of_items? read
    rcases placed.images id (own id rfl unnamed) with
      ⟨items, list, found, there, all⟩ | ⟨_, _, _, there, _, _⟩
    · rw [there] at held
      cases held
      exact ⟨items, by rw [Graph.items?, Graph.node?, found], all⟩
    · rw [there] at held
      cases held
  | reference _ held _ =>
    rw [Graph.items?, Graph.node?, held] at read
    cases read

/-- What is no list in a copy is the copy of what is no list. -/
theorem items?_eq_none (unread : copied.items? w = none) : g.items? v = none := by
  obtain ⟨stands, own⟩ := hasCopy
  cases stands with
  | scalar s => rfl
  | @own id unnamed =>
    rcases placed.images id (own id rfl unnamed) with
      ⟨_, _, _, there, _⟩ | ⟨entries, _, found, _, _, _⟩
    · rw [Graph.items?, Graph.node?, there] at unread
      cases unread
    · rw [Graph.items?, Graph.node?, found]
  | @reference id _ _ isNamed _ _ =>
    obtain ⟨entries, found⟩ := placed.exists_entries_of_idOf? isNamed
    rw [Graph.items?, Graph.node?, found]

/-- A mapping in a copy is a reference, or the copy of a mapping value by value. -/
theorem exists_values {copies : Entries} (read : copied.entries? w = some copies) :
    g.isMapping v = true ∧ ∀ w ∈ copies.map (·.2), (∃ s, w = .scalar s) ∨
      ∃ entries, g.entries? v = some entries ∧
        ∃ v ∈ entries.map (·.2), HasCopy g copied naming root image v w := by
  obtain ⟨stands, own⟩ := hasCopy
  cases stands with
  | scalar s => cases read
  | @own id unnamed =>
    have held := Graph.get?_of_entries? read
    rcases placed.images id (own id rfl unnamed) with
      ⟨_, _, _, there, _⟩ | ⟨entries, list, found, there, _, all⟩
    · rw [there] at held
      cases held
    · rw [there] at held
      cases held
      have isEntries := Graph.entries?_of_get? found
      refine ⟨by rw [Graph.isMapping, isEntries]; rfl,
        fun w member => Or.inr ⟨entries, isEntries, ?_⟩⟩
      obtain ⟨copy, inCopies, rfl⟩ := List.mem_map.1 member
      obtain ⟨v, present, one⟩ := all copy inCopies fun same => by
        rw [same, placed.named] at unnamed
        cases unnamed
      exact ⟨v, List.mem_map_of_mem present, one⟩
  | @reference id _ _ isNamed held _ =>
    obtain ⟨entries, found⟩ := placed.exists_entries_of_idOf? isNamed
    rw [Graph.entries?_of_get? held] at read
    cases read
    refine ⟨by rw [Graph.isMapping, Graph.entries?_of_get? found]; rfl, fun w member => Or.inl ?_⟩
    simp only [referenceTo, List.map_cons, List.map_nil, List.mem_singleton] at member
    exact ⟨_, member⟩

end

/-! ## Schemas inside a copy -/

section

variable {id : Nat} (own : KeptOwn g naming root id) {entries copies : Entries}
variable (found : g.get? id = some (.mapping entries))
variable (held : copied.get? (image id) = some (.mapping copies))
include own found held

/-- What a copy holds under a keyword has its original under the keyword. -/
theorem exists_original_under {key : String} {w : Value} (untitled : key ≠ "title")
    (undescribed : key ≠ "description") (read : copies.get? key = some w) :
    ∃ v, entries.get? key = some v ∧ HasCopy g copied naming root image v w := by
  rcases placed.images id own with ⟨_, _, isList, _, _⟩ | ⟨_, _, same, there, _, all⟩
  · rw [found] at isList
    cases isList
  · rw [found] at same
    cases same
    rw [there] at held
    cases held
    obtain ⟨v, present, one⟩ := all _ (Entries.mem_of_get? read) fun _ =>
      ⟨by simpa using untitled, by simpa using undescribed⟩
    exact ⟨v, Entries.get?_of_mem_of_distinct (placed.wellFormed.distinct found) present, one⟩

/-- The values of a mapping that a copy holds under a keyword have their originals. -/
theorem exists_original_value {key : String} {inside : Entries} {w : Value}
    (untitled : key ≠ "title") (undescribed : key ≠ "description")
    (read : (copies.get? key).bind copied.entries? = some inside)
    (member : w ∈ inside.map (·.2)) : (∃ s, w = .scalar s) ∨
      ∃ original, (entries.get? key).bind g.entries? = some original ∧
        ∃ v ∈ original.map (·.2), HasCopy g copied naming root image v w := by
  obtain ⟨holder, there, read⟩ := Option.bind_eq_some_iff.1 read
  obtain ⟨v, here, hasCopy⟩ :=
    placed.exists_original_under own found held untitled undescribed there
  refine ((placed.exists_values hasCopy read).2 w member).imp_right ?_
  rintro ⟨original, isEntries, values⟩
  exact ⟨original, by rw [here]; exact isEntries, values⟩

/-- The items of a list that a copy holds under a keyword have their originals. -/
theorem exists_original_item {key : String} {items : List Value} (untitled : key ≠ "title")
    (undescribed : key ≠ "description")
    (read : (copies.get? key).bind copied.items? = some items) :
    ∃ original, (entries.get? key).bind g.items? = some original ∧
      ∀ w ∈ items, ∃ v ∈ original, HasCopy g copied naming root image v w := by
  obtain ⟨holder, there, read⟩ := Option.bind_eq_some_iff.1 read
  obtain ⟨v, here, hasCopy⟩ :=
    placed.exists_original_under own found held untitled undescribed there
  obtain ⟨original, isItems, all⟩ := placed.exists_items hasCopy read
  exact ⟨original, by rw [here]; exact isItems, all⟩

/-- A structural child of a copy is a scalar or stands for a structural child of the original. -/
theorem exists_original_child {w : Value} (child : w ∈ children copied copies) :
    HasOriginal g copied naming root image (children g entries) w := by
  rcases mem_children_iff.1 child with ⟨properties, read, property⟩ | ⟨items, read, item⟩ |
    ⟨there, unread⟩ | ⟨there, isMapping⟩ | ⟨key, composes, members, read, member⟩
  · refine (placed.exists_original_value own found held (by decide) (by decide) read
      property).imp_right ?_
    rintro ⟨original, isEntries, v, present, hasCopy⟩
    exact ⟨v, mem_children_iff.2 (Or.inl ⟨original, isEntries, present⟩), hasCopy⟩
  · obtain ⟨original, isItems, all⟩ :=
      placed.exists_original_item own found held (by decide) (by decide) read
    obtain ⟨v, present, hasCopy⟩ := all w item
    exact Or.inr ⟨v, mem_children_iff.2 (Or.inr (Or.inl ⟨original, isItems, present⟩)), hasCopy⟩
  · obtain ⟨v, here, hasCopy⟩ :=
      placed.exists_original_under own found held (by decide) (by decide) there
    have single := placed.items?_eq_none hasCopy unread
    exact Or.inr ⟨v, mem_children_iff.2 (Or.inr (Or.inr (Or.inl ⟨here, single⟩))), hasCopy⟩
  · obtain ⟨v, here, hasCopy⟩ :=
      placed.exists_original_under own found held (by decide) (by decide) there
    rw [Graph.isMapping, Option.isSome_iff_exists] at isMapping
    obtain ⟨inside, read⟩ := isMapping
    have wasMapping := (placed.exists_values hasCopy read).1
    exact Or.inr ⟨v, mem_children_iff.2 (Or.inr (Or.inr (Or.inr (Or.inl ⟨here, wasMapping⟩)))),
      hasCopy⟩
  · have proper : key ≠ "title" ∧ key ≠ "description" := by
      revert composes
      simp only [compositionKeys, List.mem_cons, List.not_mem_nil, or_false]
      rintro (rfl | rfl | rfl) <;> decide
    obtain ⟨original, isItems, all⟩ :=
      placed.exists_original_item own found held proper.1 proper.2 read
    obtain ⟨v, present, hasCopy⟩ := all w member
    exact Or.inr ⟨v, mem_children_iff.2
      (Or.inr (Or.inr (Or.inr (Or.inr ⟨key, composes, original, isItems, present⟩)))), hasCopy⟩

/-- The same for what is taken for a schema besides. -/
theorem exists_original_further {w : Value} (further : w ∈ furtherChildren copied copies) :
    HasOriginal g copied naming root image (furtherChildren g entries) w := by
  rcases mem_furtherChildren_iff.1 further with ⟨patterns, read, pattern⟩ | ⟨⟨items, read⟩, there⟩
  · refine (placed.exists_original_value own found held (by decide) (by decide) read
      pattern).imp_right ?_
    rintro ⟨original, isEntries, v, present, hasCopy⟩
    exact ⟨v, mem_furtherChildren_iff.2 (Or.inl ⟨original, isEntries, present⟩), hasCopy⟩
  · obtain ⟨original, isItems, _⟩ :=
      placed.exists_original_item own found held (by decide) (by decide) read
    obtain ⟨v, here, hasCopy⟩ :=
      placed.exists_original_under own found held (by decide) (by decide) there
    exact Or.inr ⟨v, mem_furtherChildren_iff.2 (Or.inr ⟨⟨original, isItems⟩, here⟩), hasCopy⟩

end

end Placed

end

end Typewright.Standalone
