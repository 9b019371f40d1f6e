import Typewright.Proofs.Schema.Definitions

/-!
# The descriptions of definitions

The root of a copy begins with its title and, if one was proposed, a description. Then the entries
of the original are set one after the other, so that a description of the original is what the copy
shows, whatever it is; what was proposed shows only where the original has none
(`Standalone.exists_description`).
-/

namespace Typewright.Standalone

open Schema

section

variable {g copied : Graph} {naming : Naming} {own : Nat → Prop} {image : Nat → Nat}
variable {entries copies : Entries}

/-- What is read under a text in a copy stands for what is read in the original. -/
theorem rel_get?_of_entriesStandFor
    (all : List.Forall₂ (EntryStandsFor copied naming own image) entries copies) (key : String) :
    Option.Rel (StandsFor copied naming own image) (entries.get? key) (copies.get? key) := by
  induction all with
  | nil => exact .none
  | @cons entry copy entries copies one _ ih =>
    rw [Entries.get?_cons, Entries.get?_cons, one.1]
    split
    · exact .some one.2
    · exact ih

theorem get?_keptEntries_description {nested : List Nat} {id : Nat} :
    (keptEntries nested id entries).get? "description" = entries.get? "description" := by
  induction entries with
  | nil => rfl
  | cons entry entries ih =>
    rcases entry with ⟨key, value⟩
    rw [keptEntries, List.filter_cons, ← keptEntries]
    by_cases kept : (!(key == .str "title" && nested.contains id)) = true
    · rw [if_pos kept, Entries.get?_cons, Entries.get?_cons, ih]
    · rw [if_neg kept]
      have title : key = .str "title" := by
        by_contra other
        simp [other] at kept
      rw [ih, Entries.get?_cons, if_neg (by simp [title])]

/-- Without an own description, the copy of a named schema begins with the proposed one. -/
theorem get?_leading_description {id : Nat} {name : String} (named : naming.nameOf? id = some name)
    (absent : entries.get? "description" = none) :
    (leading g naming id entries).get? "description" =
      ((naming.descriptionOf? id).filter (· ≠ "")).map Value.str := by
  rw [leading, named, absent]
  cases naming.descriptionOf? id with
  | none => simp [Entries.get?_cons]
  | some text =>
    by_cases empty : text = ""
    · simp [Entries.get?_cons, empty, Option.filter]
    · simp [Entries.get?_cons, empty, Option.filter]

end

/-- The image of an own container shows what stands for its description; without one it shows the
description that its copy begins with. -/
theorem description_of_image {g copied : Graph} {naming : Naming} {root base : Nat}
    {members : List Nat} {references : List Node}
    (copying : Copying g copied naming root base members references)
    (mappings : NamesMappings g naming) (wellFormed : g.WellFormed) {id : Nat} {entries : Entries}
    (own : KeptOwn g naming root id) (found : g.get? id = some (.mapping entries)) :
    ∃ copies, copied.get? (copyOf base members id) = some (.mapping copies) ∧
      (entries.get? "description" = none →
        copies.get? "description" = (leading g naming id entries).get? "description") ∧
      ((entries.get? "description").isSome = true →
        Option.Rel (StandsFor copied naming (KeptOwn g naming root) (copyOf base members))
          (entries.get? "description") (copies.get? "description")) := by
  obtain ⟨copies, held, all⟩ := image_mapping copying mappings own found
  have shown : (copies.foldl (fun all entry => Entries.put all entry.1 entry.2)
      (leading g naming id entries)).get? "description" =
        (Entries.get? copies "description").or
          ((leading g naming id entries).get? "description") :=
    Entries.get?_foldl_put _
      (distinct_of_entriesStandFor all (distinct_keptEntries wellFormed found))
  have stands := rel_get?_of_entriesStandFor all "description"
  rw [get?_keptEntries_description] at stands
  refine ⟨_, held, fun absent => ?_, fun present => ?_⟩
  · rw [absent] at stands
    cases none : Entries.get? copies "description" with
    | some v =>
      rw [none] at stands
      cases stands
    | none => rw [shown, none, Option.none_or]
  · obtain ⟨v, isOwn⟩ := Option.isSome_iff_exists.1 present
    rw [isOwn] at stands ⊢
    cases copy : Entries.get? copies "description" with
    | none =>
      rw [copy] at stands
      cases stands
    | some w =>
      rw [shown, copy, Option.some_or]
      rwa [copy] at stands

/-- The definition of a named schema mirrors the schema and shows what stands for its description.
If it has none, the definition shows the description that was proposed for it, unless that is
empty. -/
theorem exists_description {g : Graph} {naming : Naming} (wellFormed : g.WellFormed)
    (plain : ∀ id, naming.isNamed id = true → defined? g (.node id) = some id) {root : Nat}
    (named : naming.isNamed root = true) {entries : Entries}
    (found : g.get? root = some (.mapping entries)) : ∃ id image copies,
      naming.idOf? root = some id ∧ (id, .node (image root)) ∈ (definitions g naming).2 ∧
      Mirrors g (definitions g naming).1 naming root
        (keptSuccessors g (dependencies g (.node root))) (HasIdleDescription g naming root) image ∧
      (definitions g naming).1.get? (image root) = some (.mapping copies) ∧
      (entries.get? "description" = none → copies.get? "description" =
        ((naming.descriptionOf? root).filter (· ≠ "")).map Value.str) ∧
      ((entries.get? "description").isSome = true →
        Option.Rel (StandsFor (definitions g naming).1 naming (KeptOwn g naming root) image)
          (entries.get? "description") (copies.get? "description")) := by
  obtain ⟨name, isNamed⟩ := Naming.exists_nameOf?_of_mem (Naming.isNamed_iff.1 named)
  have isId : naming.idOf? root = some (Text.lower name) := by
    rw [Naming.idOf?, isNamed]
    rfl
  obtain ⟨base, stop, members, references, stretch⟩ := exists_stretch wellFormed plain named
  have mappings := namesMappings_of_plain plain
  have mirrors := mirrors_of_copying stretch.copying mappings wellFormed (plain root named) named
  have given := stretch.listed
  rw [isId, Option.getD_some, ← stretch.start] at given
  obtain ⟨copies, held, absent, present⟩ :=
    description_of_image stretch.copying mappings wellFormed .refl found
  exact ⟨_, _, copies, isId, given, mirrors, held,
    fun none => (absent none).trans (get?_leading_description isNamed none), present⟩

end Typewright.Standalone
