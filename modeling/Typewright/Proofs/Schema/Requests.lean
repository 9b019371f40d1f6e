import Typewright.Proofs.Schema.Registry

/-!
# Registries over whole runs

A registry is asked in any order to take proposals, to take note of schemas and to finalize. At
every point of such a run its names are apart from each other and from the reserved words ignoring
case, they belong to schemas that were proposed before, and they stay what they are; the search for
a free form of a name ends in front of every list of reserved words (`Naming.orderly_after`).
-/

namespace Typewright.Naming

open Text

/-! ## Names stay -/

theorem names_register (naming : Naming) (schema : Nat) :
    (naming.register schema).names = naming.names := by
  rw [register]
  split <;> rfl

theorem names_propose (naming : Naming) (proposal : Proposal) :
    (naming.propose proposal).names = naming.names := by
  rw [propose]
  split <;> exact names_register naming proposal.schema

theorem names_prefix_assign (naming : Naming) (proposal : Proposal) :
    naming.names <+: (naming.assign proposal).names := by
  rw [assign]
  split
  · exact List.prefix_rfl
  · exact List.prefix_append _ _

theorem names_prefix_foldl_assign (naming : Naming) (proposals : List Proposal) :
    naming.names <+: (proposals.foldl assign naming).names := by
  induction proposals generalizing naming with
  | nil => exact List.prefix_rfl
  | cons proposal proposals ih =>
    rw [List.foldl_cons]
    exact (names_prefix_assign naming proposal).trans (ih _)

/-- A request only adds names, behind those that were given before. -/
theorem names_prefix_apply (naming : Naming) (request : Request) :
    naming.names <+: (request.apply naming).names := by
  cases request with
  | propose proposal =>
    exact ⟨[], by rw [List.append_nil, Request.apply, names_propose]⟩
  | register schema =>
    exact ⟨[], by rw [List.append_nil, Request.apply, names_register]⟩
  | finalize => exact names_prefix_foldl_assign naming naming.proposals

theorem after_append (words : List String) (early later : List Request) :
    after words (early ++ later) = later.foldl Request.apply (after words early) := by
  rw [after, List.foldl_append]
  rfl

theorem names_prefix_after (words : List String) (early later : List Request) :
    (after words early).names <+: (after words (early ++ later)).names := by
  rw [after_append]
  generalize after words early = naming
  induction later generalizing naming with
  | nil => exact List.prefix_rfl
  | cons request later ih =>
    rw [List.foldl_cons]
    exact (names_prefix_apply naming request).trans (ih _)

/-- What is found in a list of names is found in every longer one. -/
theorem nameOf?_of_prefix {early late : Naming} (kept : early.names <+: late.names) {schema : Nat}
    {name : String} (found : early.nameOf? schema = some name) :
    late.nameOf? schema = some name := by
  obtain ⟨more, whole⟩ := kept
  rw [nameOf?, Option.map_eq_some_iff] at found ⊢
  obtain ⟨entry, first, same⟩ := found
  refine ⟨entry, ?_, same⟩
  rw [← whole, List.find?_append, first]
  rfl

/-! ## Proposals -/

/-- A schema has a proposal after a request if it had one or the request proposes it. -/
theorem isProposed_apply_iff (naming : Naming) (request : Request) (schema : Nat) :
    (request.apply naming).isProposed schema = true ↔
      naming.isProposed schema = true ∨
        ∃ proposal, request = .propose proposal ∧ proposal.schema = schema := by
  cases request with
  | propose proposal =>
    obtain ⟨kept, made⟩ := isProposed_propose naming proposal
    constructor
    · intro proposed
      rw [Request.apply, isProposed, proposal?, List.find?_isSome] at proposed
      obtain ⟨other, member, same⟩ := proposed
      have this : other.schema = schema := by simpa using same
      rcases List.mem_append.1 (proposals_propose naming proposal member) with old | new
      · rw [← this]
        exact Or.inl (isProposed_of_mem old)
      · rw [List.mem_singleton.1 new] at this
        exact Or.inr ⟨proposal, rfl, this⟩
    · rintro (old | ⟨other, same, rfl⟩)
      · exact kept schema old
      · rw [Request.propose.inj same]
        exact (isProposed_propose naming other).2
  | register other =>
    rw [Request.apply, isProposed, proposal?_register, ← isProposed]
    simp
  | finalize =>
    rw [Request.apply, isProposed, proposal?, finalize, proposals_foldl_assign, ← proposal?,
      ← isProposed]
    simp

/-- The schemas with a proposal are those that some request proposes. -/
theorem isProposed_after_iff (words : List String) (requests : List Request) (schema : Nat) :
    (after words requests).isProposed schema = true ↔
      ∃ proposal, .propose proposal ∈ requests ∧ proposal.schema = schema := by
  induction requests using List.reverseRecOn with
  | nil => simp [after, withReserved, isProposed, proposal?]
  | append_singleton requests request ih =>
    rw [after_append, List.foldl_cons, List.foldl_nil, isProposed_apply_iff, ih]
    constructor
    · rintro (⟨proposal, member, same⟩ | ⟨proposal, rfl, same⟩)
      · exact ⟨proposal, List.mem_append_left _ member, same⟩
      · exact ⟨proposal, List.mem_append_right _ List.mem_cons_self, same⟩
    · rintro ⟨proposal, member, same⟩
      rcases List.mem_append.1 member with early | last
      · exact Or.inl ⟨proposal, early, same⟩
      · exact Or.inr ⟨proposal, (List.mem_singleton.1 last).symm, same⟩

/-! ## Runs -/

/-- The search for a free form of a name ends after passing over some forms: those are reserved and
the next one is not. -/
def Passes (reserved : List String) (name : String) (forms : Nat) : Prop :=
  lower (withSuffix name forms) ∉ reserved ∧
    ∀ n < forms, lower (withSuffix name n) ∈ reserved

/-- What holds of a registry after the requests of a run, whatever it is asked later. -/
structure Orderly (words : List String) (requests : List Request) : Prop where
  apart : ∀ a b m n, (after words requests).nameOf? a = some m →
    (after words requests).nameOf? b = some n → a ≠ b → lower m ≠ lower n
  unreserved : ∀ schema name, (after words requests).nameOf? schema = some name →
    ∀ word ∈ words, lower name ≠ lower word
  kept : ∀ schema name, (after words requests).nameOf? schema = some name →
    ∀ later, (after words (requests ++ later)).nameOf? schema = some name
  proposed : ∀ schema name, (after words requests).nameOf? schema = some name →
    ∃ proposal, .propose proposal ∈ requests ∧ proposal.schema = schema
  finalized : ∀ proposal, .propose proposal ∈ requests →
    ∃ name, (after words (requests ++ [.finalize])).nameOf? proposal.schema = some name

/-- The search for a free form of a cleaned title ends, and what it ends at is the name given. -/
theorem exists_passes (reserved : List String) (title : String) :
    ∃ forms, Passes reserved (cleanName title) forms ∧
      allocate reserved (cleanName title) = withSuffix (cleanName title) forms := by
  obtain ⟨forms, found, free, busy⟩ := firstFree_spec
    (fun form => reserved.contains (lower form)) lower reserved (cleanName title)
    (fun n taken => by simpa using taken)
    (fun m n same => lower_withSuffix_injective (isName_cleanName title) same)
  exact ⟨forms, ⟨by simpa using free, fun n less => by simpa using busy n less⟩, found⟩

/-- A suffix is passed over where another name ends in it. -/
example : allocate ["a", "a1", "b"] "A" = "A2" := by decide +kernel

/-- Every run is orderly at every point, and the search for a free form ends in front of every list
of reserved words. -/
theorem orderly_after (words : List String) (requests : List Request) :
    Orderly words requests ∧
      ∀ reserved title, ∃ forms, Passes reserved (cleanName title) forms ∧
        allocate reserved (cleanName title) = withSuffix (cleanName title) forms := by
  have consistent := consistent_after words requests
  refine ⟨⟨?_, ?_, ?_, ?_, ?_⟩, exists_passes⟩
  · intro a b m n first second different same
    exact different (consistent.schema_unique first second same)
  · intro schema name found word member same
    refine consistent.unreserved _ (mem_names_of_nameOf? found) ?_
    rw [same]
    exact List.mem_map_of_mem member
  · intro schema name found later
    exact nameOf?_of_prefix (names_prefix_after words requests later) found
  · intro schema name found
    rw [← isProposed_after_iff words]
    exact consistent.proposed _ (mem_names_of_nameOf? found)
  · intro proposal member
    have proposed := (isProposed_after_iff words requests _).2 ⟨proposal, member, rfl⟩
    have named := isNamed_finalize proposed
    rw [after_append, List.foldl_cons, List.foldl_nil, Request.apply]
    exact exists_nameOf?_of_mem (isNamed_iff.1 named)

end Typewright.Naming
