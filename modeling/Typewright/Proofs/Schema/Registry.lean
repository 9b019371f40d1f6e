import Typewright.Api.Normal
import Typewright.Proofs.Schema.FirstFree

/-!
# What a registry of names keeps

Whatever is proposed and however often the registry is finalized, its names stay names, different
from each other and from the reserved words ignoring case, one for each schema, and only for schemas
with a proposal (`Naming.Consistent`). After finalizing, every schema with a proposal has a name
(`Naming.isNamed_finalize`).
-/

namespace Typewright

namespace Naming

open Text

/-- What holds of a registry that was made with the given reserved words in lower case. -/
structure Consistent (words : List String) (naming : Naming) : Prop where
  reserved : naming.reserved = (naming.names.map fun entry => lower entry.2).reverse ++ words
  apart : (naming.names.map fun entry => lower entry.2).Nodup
  unreserved : ∀ entry ∈ naming.names, lower entry.2 ∉ words
  isName : ∀ entry ∈ naming.names, IsName entry.2
  once : (naming.names.map (·.1)).Nodup
  proposed : ∀ entry ∈ naming.names, naming.isProposed entry.1 = true

/-! ## Looking up -/

theorem mem_names_of_nameOf? {naming : Naming} {schema : Nat} {name : String}
    (found : naming.nameOf? schema = some name) : (schema, name) ∈ naming.names := by
  rw [nameOf?, Option.map_eq_some_iff] at found
  obtain ⟨entry, first, rfl⟩ := found
  have same : entry.1 = schema := by simpa using List.find?_some first
  rw [← same]
  exact List.mem_of_find?_eq_some first

theorem isNamed_iff {naming : Naming} {schema : Nat} :
    naming.isNamed schema = true ↔ schema ∈ naming.namedSchemas := by
  simp [isNamed, nameOf?, namedSchemas]

/-- A name is found for exactly the named schemas. -/
theorem exists_nameOf?_of_mem {naming : Naming} {schema : Nat}
    (named : schema ∈ naming.namedSchemas) : ∃ name, naming.nameOf? schema = some name := by
  rw [← isNamed_iff, isNamed, Option.isSome_iff_exists] at named
  exact named

/-- Only named schemas have identifiers. -/
theorem isNamed_of_idOf? {naming : Naming} {schema : Nat} {id : String}
    (isId : naming.idOf? schema = some id) : naming.isNamed schema = true := by
  obtain ⟨name, found, _⟩ := Option.map_eq_some_iff.1 isId
  rw [isNamed, found]
  rfl

namespace Consistent

variable {words : List String} {naming : Naming}

theorem nameOf?_eq_some_iff (consistent : Consistent words naming) {schema : Nat}
    {name : String} : naming.nameOf? schema = some name ↔ (schema, name) ∈ naming.names := by
  refine ⟨mem_names_of_nameOf?, fun member => ?_⟩
  have named : schema ∈ naming.namedSchemas := List.mem_map_of_mem member
  obtain ⟨other, found⟩ := exists_nameOf?_of_mem named
  have same := List.inj_on_of_nodup_map consistent.once (mem_names_of_nameOf? found) member rfl
  rw [found, (Prod.mk.inj same).2]

/-- Names that are equal ignoring case are names of one schema. -/
theorem schema_unique (consistent : Consistent words naming) {a b : Nat} {m n : String}
    (first : naming.nameOf? a = some m) (second : naming.nameOf? b = some n)
    (same : lower m = lower n) : a = b := by
  have entries := List.inj_on_of_nodup_map consistent.apart (mem_names_of_nameOf? first)
    (mem_names_of_nameOf? second) same
  exact (Prod.mk.inj entries).1

/-- Different schemas have different identifiers. -/
theorem idOf?_injective (consistent : Consistent words naming) {a b : Nat} {id : String}
    (first : naming.idOf? a = some id) (second : naming.idOf? b = some id) : a = b := by
  rw [idOf?, Option.map_eq_some_iff] at first second
  obtain ⟨m, foundFirst, rfl⟩ := first
  obtain ⟨n, foundSecond, same⟩ := second
  exact consistent.schema_unique foundFirst foundSecond same.symm

end Consistent

/-! ## Steps -/

theorem proposal?_register (naming : Naming) (schema other : Nat) :
    (naming.register schema).proposal? other = naming.proposal? other := by
  rw [register]
  split <;> rfl

theorem Consistent.register {words : List String} {naming : Naming}
    (consistent : Consistent words naming) (schema : Nat) :
    Consistent words (naming.register schema) := by
  rw [Naming.register]
  split
  · exact consistent
  · exact ⟨consistent.reserved, consistent.apart, consistent.unreserved, consistent.isName,
      consistent.once, consistent.proposed⟩

theorem isProposed_append {naming : Naming} {schema : Nat} (more : List Proposal)
    (proposed : naming.isProposed schema = true) :
    Naming.isProposed { naming with proposals := naming.proposals ++ more } schema = true := by
  rw [isProposed, proposal?] at proposed ⊢
  rw [List.find?_append]
  cases found : naming.proposals.find? (·.schema == schema) with
  | none => simp [found] at proposed
  | some proposal => rfl

/-- A proposal keeps a registry consistent. -/
theorem Consistent.propose {words : List String} {naming : Naming}
    (consistent : Consistent words naming) (proposal : Proposal) :
    Consistent words (naming.propose proposal) := by
  have registered := consistent.register proposal.schema
  rw [Naming.propose]
  split
  · exact registered
  · exact ⟨registered.reserved, registered.apart, registered.unreserved, registered.isName,
      registered.once, fun entry member => isProposed_append _ (registered.proposed entry member)⟩

/-- The name that a schema is given, against everything that is reserved. -/
theorem allocate_spec (reserved : List String) {name : String} (isName : IsName name) :
    IsName (allocate reserved name) ∧ lower (allocate reserved name) ∉ reserved := by
  obtain ⟨n, found, free, _⟩ := firstFree_spec
    (fun form => reserved.contains (lower form)) lower reserved name
    (fun n taken => by simpa using taken)
    (fun m n same => lower_withSuffix_injective isName same)
  rw [allocate, found]
  exact ⟨isName.withSuffix n, by simpa using free⟩

/-- Naming a schema with a proposal keeps a registry consistent. -/
theorem Consistent.assign {words : List String} {naming : Naming}
    (consistent : Consistent words naming) {proposal : Proposal}
    (proposed : naming.isProposed proposal.schema = true) :
    Consistent words (naming.assign proposal) := by
  rw [Naming.assign]
  split
  · exact consistent
  · next unnamed =>
    rw [isNamed_iff] at unnamed
    obtain ⟨isName, free⟩ := allocate_spec naming.reserved (isName_cleanName proposal.title)
    generalize allocate naming.reserved (cleanName proposal.title) = name at isName free
    rw [consistent.reserved, List.mem_append, List.mem_reverse, not_or] at free
    constructor
    · simp [consistent.reserved]
    · rw [List.map_append, List.nodup_append]
      refine ⟨consistent.apart, by simp, ?_⟩
      rintro word member other last rfl
      rw [List.map_singleton, List.mem_singleton] at last
      rw [last] at member
      exact free.1 member
    · intro entry member
      rcases List.mem_append.1 member with old | new
      · exact consistent.unreserved entry old
      · rw [List.mem_singleton.1 new]
        exact free.2
    · intro entry member
      rcases List.mem_append.1 member with old | new
      · exact consistent.isName entry old
      · rw [List.mem_singleton.1 new]
        exact isName
    · rw [List.map_append, List.nodup_append]
      refine ⟨consistent.once, by simp, ?_⟩
      rintro schema member other last rfl
      rw [List.map_singleton, List.mem_singleton] at last
      rw [last] at member
      exact unnamed member
    · intro entry member
      rcases List.mem_append.1 member with old | new
      · exact consistent.proposed entry old
      · rw [List.mem_singleton.1 new]
        exact proposed

/-! ## Finalizing -/

theorem proposals_assign (naming : Naming) (proposal : Proposal) :
    (naming.assign proposal).proposals = naming.proposals := by
  rw [assign]
  split <;> rfl

theorem isProposed_assign (naming : Naming) (proposal : Proposal) (schema : Nat) :
    (naming.assign proposal).isProposed schema = naming.isProposed schema := by
  rw [isProposed, proposal?, proposals_assign]
  rfl

theorem proposals_foldl_assign (naming : Naming) (proposals : List Proposal) :
    (proposals.foldl assign naming).proposals = naming.proposals := by
  induction proposals generalizing naming with
  | nil => rfl
  | cons proposal proposals ih => rw [List.foldl_cons, ih, proposals_assign]

theorem Consistent.foldl_assign {words : List String} {naming : Naming}
    (consistent : Consistent words naming) {proposals : List Proposal}
    (proposed : ∀ proposal ∈ proposals, naming.isProposed proposal.schema = true) :
    Consistent words (proposals.foldl Naming.assign naming) := by
  induction proposals generalizing naming with
  | nil => exact consistent
  | cons proposal proposals ih =>
    rw [List.foldl_cons]
    refine ih (consistent.assign (proposed proposal List.mem_cons_self)) fun other member => ?_
    rw [isProposed_assign]
    exact proposed other (List.mem_cons_of_mem _ member)

theorem isProposed_of_mem {naming : Naming} {proposal : Proposal}
    (member : proposal ∈ naming.proposals) : naming.isProposed proposal.schema = true := by
  rw [isProposed, proposal?, List.find?_isSome]
  exact ⟨proposal, member, by simp⟩

/-- Finalizing keeps a registry consistent. -/
theorem Consistent.finalize {words : List String} {naming : Naming}
    (consistent : Consistent words naming) : Consistent words naming.finalize :=
  consistent.foldl_assign fun _ member => isProposed_of_mem member

theorem namedSchemas_assign (naming : Naming) (proposal : Proposal) :
    naming.namedSchemas ⊆ (naming.assign proposal).namedSchemas ∧
      proposal.schema ∈ (naming.assign proposal).namedSchemas := by
  rw [assign]
  split
  · next named => exact ⟨fun _ member => member, isNamed_iff.1 named⟩
  · constructor
    · intro schema member
      simp only [namedSchemas, List.map_append, List.mem_append] at member ⊢
      exact Or.inl member
    · simp [namedSchemas]

theorem namedSchemas_foldl_assign (naming : Naming) (proposals : List Proposal) :
    naming.namedSchemas ⊆ (proposals.foldl assign naming).namedSchemas ∧
      ∀ proposal ∈ proposals, proposal.schema ∈ (proposals.foldl assign naming).namedSchemas := by
  induction proposals generalizing naming with
  | nil => exact ⟨fun _ member => member, by simp⟩
  | cons proposal proposals ih =>
    obtain ⟨kept, named⟩ := namedSchemas_assign naming proposal
    obtain ⟨keptLater, namedLater⟩ := ih (naming.assign proposal)
    rw [List.foldl_cons]
    refine ⟨fun _ member => keptLater (kept member), fun other member => ?_⟩
    rcases List.mem_cons.1 member with same | later
    · rw [same]
      exact keptLater named
    · exact namedLater other later

/-- After finalizing, every schema with a proposal has a name. -/
theorem isNamed_finalize {naming : Naming} {schema : Nat}
    (proposed : naming.isProposed schema = true) : naming.finalize.isNamed schema = true := by
  rw [isProposed, proposal?, List.find?_isSome] at proposed
  obtain ⟨proposal, member, same⟩ := proposed
  have this : proposal.schema = schema := by simpa using same
  rw [isNamed_iff, ← this]
  exact (namedSchemas_foldl_assign naming naming.proposals).2 proposal member

theorem consistent_withReserved (words : List String) :
    Consistent (words.map lower) (withReserved words) := by
  refine ⟨by simp [withReserved], ?_, ?_, ?_, ?_, ?_⟩ <;> simp [withReserved]

/-! ## Runs -/

/-- What can be asked of a registry that changes it. -/
inductive Request
  | propose (proposal : Proposal)
  | register (schema : Nat)
  | finalize
  deriving Repr

/-- The registry after a request. -/
def Request.apply (naming : Naming) : Request → Naming
  | propose proposal => naming.propose proposal
  | register schema => naming.register schema
  | finalize => naming.finalize

/-- The registry with the given reserved words after some requests. -/
def after (words : List String) (requests : List Request) : Naming :=
  requests.foldl Request.apply (withReserved words)

theorem Consistent.apply {words : List String} {naming : Naming}
    (consistent : Consistent words naming) (request : Request) :
    Consistent words (request.apply naming) := by
  cases request with
  | propose proposal => exact consistent.propose proposal
  | register schema => exact consistent.register schema
  | finalize => exact consistent.finalize

/-- A registry is consistent after any requests. -/
theorem consistent_after (words : List String) (requests : List Request) :
    Consistent (words.map lower) (after words requests) := by
  rw [after]
  generalize withReserved words = naming, consistent_withReserved words = consistent
  induction requests generalizing naming with
  | nil => exact consistent
  | cons request requests ih => exact ih _ (consistent.apply request)

theorem isProposed_propose (naming : Naming) (proposal : Proposal) :
    (∀ schema, naming.isProposed schema = true →
        (naming.propose proposal).isProposed schema = true) ∧
      (naming.propose proposal).isProposed proposal.schema = true := by
  have kept : ∀ schema, (naming.register proposal.schema).isProposed schema =
      naming.isProposed schema := by
    intro schema
    rw [isProposed, proposal?_register]
    rfl
  rw [propose]
  split
  · next already => exact ⟨fun schema proposed => by rwa [kept], already⟩
  · refine ⟨fun schema proposed => isProposed_append _ (by rwa [kept]), ?_⟩
    exact isProposed_of_mem (List.mem_append_right _ List.mem_cons_self)

theorem isProposed_foldl_propose (naming : Naming) (proposals : List Proposal) :
    (∀ schema, naming.isProposed schema = true →
        (proposals.foldl propose naming).isProposed schema = true) ∧
      ∀ proposal ∈ proposals,
        (proposals.foldl propose naming).isProposed proposal.schema = true := by
  induction proposals generalizing naming with
  | nil => exact ⟨fun _ proposed => proposed, by simp⟩
  | cons proposal proposals ih =>
    obtain ⟨kept, here⟩ := isProposed_propose naming proposal
    obtain ⟨keptLater, proposedLater⟩ := ih (naming.propose proposal)
    rw [List.foldl_cons]
    refine ⟨fun schema proposed => keptLater schema (kept schema proposed), fun other member => ?_⟩
    rcases List.mem_cons.1 member with same | later
    · rw [same]
      exact keptLater _ here
    · exact proposedLater other later

theorem proposals_propose (naming : Naming) (proposal : Proposal) :
    (naming.propose proposal).proposals ⊆ naming.proposals ++ [proposal] := by
  have kept : (naming.register proposal.schema).proposals = naming.proposals := by
    rw [register]
    split <;> rfl
  rw [propose]
  split
  · rw [kept]
    exact List.subset_append_left _ _
  · simp [kept]

theorem proposals_foldl_propose (naming : Naming) (proposals : List Proposal) :
    (proposals.foldl propose naming).proposals ⊆ naming.proposals ++ proposals := by
  induction proposals generalizing naming with
  | nil => simp
  | cons proposal proposals ih =>
    rw [List.foldl_cons]
    intro other member
    rcases List.mem_append.1 (ih _ member) with early | late
    · rcases List.mem_append.1 (proposals_propose naming proposal early) with old | new
      · exact List.mem_append_left _ old
      · rw [List.mem_singleton.1 new]
        exact List.mem_append_right _ List.mem_cons_self
    · exact List.mem_append_right _ (List.mem_cons_of_mem _ late)

/-- The first proposal for a schema counts. -/
theorem proposal?_propose (naming : Naming) (proposal : Proposal) (schema : Nat) :
    (naming.propose proposal).proposal? schema =
      (naming.proposal? schema).or (if proposal.schema == schema then some proposal else none) := by
  have kept : ∀ other, (naming.register proposal.schema).proposal? other = naming.proposal? other :=
    proposal?_register naming proposal.schema
  rw [propose]
  split
  · next already =>
    rw [isProposed, kept] at already
    rw [kept]
    split
    · next same =>
      rw [← beq_iff_eq.1 same]
      obtain ⟨first, found⟩ := Option.isSome_iff_exists.1 already
      rw [found, Option.some_or]
    · rw [Option.or_none]
  · rw [← kept, proposal?, proposal?, List.find?_append]
    congr 1
    rw [List.find?_singleton]

theorem proposal?_foldl_propose (naming : Naming) (proposals : List Proposal) (schema : Nat) :
    (proposals.foldl propose naming).proposal? schema =
      (naming.proposal? schema).or (proposals.find? (·.schema == schema)) := by
  induction proposals generalizing naming with
  | nil => rw [List.foldl_nil, List.find?_nil, Option.or_none]
  | cons proposal proposals ih =>
    rw [List.foldl_cons, ih, proposal?_propose, Option.or_assoc, List.find?_cons]
    cases proposal.schema == schema <;> simp

end Naming

/-! ## The names of a description -/

namespace Api

/-- The registry of a description is that after proposing and finalizing. -/
theorem nameAll_eq_after (proposals : List Proposal) :
    nameAll proposals = Naming.after [topLevelTitle] (proposals.map .propose ++ [.finalize]) := by
  rw [Naming.after, List.foldl_append, List.foldl_map]
  rfl

theorem consistent_nameAll (proposals : List Proposal) :
    Naming.Consistent [Text.lower topLevelTitle] (nameAll proposals) := by
  rw [nameAll_eq_after]
  exact Naming.consistent_after [topLevelTitle] _

/-- Every schema that something is proposed for has a name. -/
theorem isNamed_nameAll {proposals : List Proposal} {proposal : Proposal}
    (member : proposal ∈ proposals) : (nameAll proposals).isNamed proposal.schema = true :=
  Naming.isNamed_finalize ((Naming.isProposed_foldl_propose _ proposals).2 proposal member)

/-- Only schemas that something is proposed for have names. -/
theorem exists_proposal_of_isNamed {proposals : List Proposal} {schema : Nat}
    (named : (nameAll proposals).isNamed schema = true) :
    ∃ proposal ∈ proposals, proposal.schema = schema := by
  obtain ⟨entry, member, rfl⟩ := List.mem_map.1 (Naming.isNamed_iff.1 named)
  have proposed := (consistent_nameAll proposals).proposed entry member
  rw [Naming.isProposed, Naming.proposal?, List.find?_isSome] at proposed
  obtain ⟨proposal, inRegistry, same⟩ := proposed
  have kept : (nameAll proposals).proposals =
      (proposals.foldl Naming.propose (.withReserved [topLevelTitle])).proposals :=
    Naming.proposals_foldl_assign _ _
  rw [kept] at inRegistry
  refine ⟨proposal, ?_, by simpa using same⟩
  simpa [Naming.withReserved] using Naming.proposals_foldl_propose _ _ inRegistry

/-- The proposal that counts for a schema of a description. -/
theorem proposal?_nameAll (proposals : List Proposal) (schema : Nat) :
    (nameAll proposals).proposal? schema = proposals.find? (·.schema == schema) := by
  rw [nameAll, Naming.finalize, Naming.proposal?, Naming.proposals_foldl_assign]
  exact Naming.proposal?_foldl_propose (.withReserved [topLevelTitle]) proposals schema

end Api

end Typewright
