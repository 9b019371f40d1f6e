import Mathlib.Data.Nat.Find
import Mathlib.Logic.Equiv.Basic
import Typewright.Proofs.Api.Renumbered
import Typewright.Proofs.Schema.Requests

/-!
# Names are given by first fit

A registry takes proposals and gives names in any order of requests. The names are nevertheless
those of a plain allocation: go through the schemas in the order of their first proposals, and give
each its cleaned title with the first suffix that is free (`Naming.firstFit`).

The reason is that each proposal that counts goes to the end, so that finalizing early names a front
part of the proposals and finalizing later goes on behind it (`Naming.Fitted`). When names are given
makes therefore no difference, and neither does what is proposed later (`Naming.names_first_fit`).
-/

namespace Typewright

namespace Naming

open Text

/-! ## First fit -/

/-- The proposal that a request makes. -/
def Request.proposal? : Request → Option Proposal
  | propose proposal => some proposal
  | register _ | finalize => none

/-- The proposals among some requests. -/
def proposed (requests : List Request) : List Proposal :=
  requests.filterMap Request.proposal?

/-- The first proposal for each schema. -/
def firsts : List Proposal → List Proposal
  | [] => []
  | proposal :: rest =>
    proposal :: (firsts rest).filter fun later => later.schema != proposal.schema

/-- A form of a name is free if it differs, ignoring case, from the reserved words and from the names
given earlier. -/
def IsFree (words : List String) (earlier : List (Nat × String)) (form : String) : Prop :=
  (∀ word ∈ words, lower form ≠ lower word) ∧ ∀ entry ∈ earlier, lower form ≠ lower entry.2

instance (words : List String) (earlier : List (Nat × String)) (form : String) :
    Decidable (IsFree words earlier form) :=
  inferInstanceAs (Decidable (_ ∧ _))

/-- What is reserved once some names have been given. -/
theorem not_mem_reserved_iff {words : List String} {earlier : List (Nat × String)}
    {form : String} :
    lower form ∉ (earlier.map fun entry => lower entry.2).reverse ++ words.map lower ↔
      IsFree words earlier form := by
  rw [List.mem_append, List.mem_reverse, List.mem_map, List.mem_map, not_or, IsFree]
  constructor
  · intro free
    refine ⟨fun word member same => ?_, fun entry member same => ?_⟩
    · exact free.2 ⟨word, member, same.symm⟩
    · exact free.1 ⟨entry, member, same.symm⟩
  · intro free
    constructor
    · intro taken
      rcases taken with ⟨entry, member, same⟩
      exact free.2 entry member same.symm
    · intro taken
      rcases taken with ⟨word, member, same⟩
      exact free.1 word member same.symm

/-- Some suffix makes a cleaned title free. -/
theorem exists_isFree (words : List String) (earlier : List (Nat × String)) (title : String) :
    ∃ suffix, IsFree words earlier (withSuffix (cleanName title) suffix) := by
  rcases exists_passes ((earlier.map fun entry => lower entry.2).reverse ++ words.map lower) title
    with ⟨suffix, ⟨free, _⟩, _⟩
  exact ⟨suffix, not_mem_reserved_iff.1 free⟩

/-- A cleaned title with the first suffix that makes it free. -/
def fit (words : List String) (earlier : List (Nat × String)) (title : String) : String :=
  withSuffix (cleanName title) (Nat.find (exists_isFree words earlier title))

/-- Gives each schema of some proposals in turn the first name that fits. -/
def firstFit (words : List String) (proposals : List Proposal) : List (Nat × String) :=
  proposals.foldl
    (fun earlier proposal => earlier ++ [(proposal.schema, fit words earlier proposal.title)]) []

/-- The bounded search of a registry finds the name that fits. -/
theorem allocate_eq_fit (words : List String) (earlier : List (Nat × String)) (title : String) :
    allocate ((earlier.map fun entry => lower entry.2).reverse ++ words.map lower)
      (cleanName title) = fit words earlier title := by
  rcases exists_passes ((earlier.map fun entry => lower entry.2).reverse ++ words.map lower) title
    with ⟨suffix, ⟨free, busy⟩, found⟩
  have least : Nat.find (exists_isFree words earlier title) = suffix := by
    rw [Nat.find_eq_iff]
    refine ⟨not_mem_reserved_iff.1 free, fun n less isFree => ?_⟩
    exact not_mem_reserved_iff.2 isFree (busy n less)
  rw [found, fit, least]

theorem firstFit_concat (words : List String) (proposals : List Proposal) (last : Proposal) :
    firstFit words (proposals ++ [last]) = firstFit words proposals ++
      [(last.schema, fit words (firstFit words proposals) last.title)] := by
  rw [firstFit, List.foldl_append]
  rfl

theorem schemas_firstFit (words : List String) (proposals : List Proposal) :
    (firstFit words proposals).map (·.1) = proposals.map (·.schema) := by
  induction proposals using List.reverseRecOn with
  | nil => rfl
  | append_singleton proposals last ih =>
    rw [firstFit_concat, List.map_append, List.map_append, ih]
    rfl

/-- Names given later come behind those given earlier. -/
theorem firstFit_prefix (words : List String) (proposals more : List Proposal) :
    firstFit words proposals <+: firstFit words (proposals ++ more) := by
  induction more using List.reverseRecOn with
  | nil => simp
  | append_singleton more last ih =>
    rw [← List.append_assoc, firstFit_concat]
    exact ih.trans (List.prefix_append _ _)

/-! ## First proposals -/

theorem schema_mem_firsts_iff {proposals : List Proposal} {schema : Nat} :
    schema ∈ (firsts proposals).map (·.schema) ↔ schema ∈ proposals.map (·.schema) := by
  induction proposals with
  | nil => rfl
  | cons proposal rest ih =>
    rw [firsts, List.map_cons, List.map_cons, List.mem_cons, List.mem_cons, ← ih]
    by_cases same : schema = proposal.schema
    · simp [same]
    · have kept : schema ∈ ((firsts rest).filter fun later =>
          later.schema != proposal.schema).map (·.schema) ↔
          schema ∈ (firsts rest).map (·.schema) := by
        simp only [List.mem_map, List.mem_filter, bne_iff_ne]
        constructor
        · intro found
          rcases found with ⟨later, ⟨member, _⟩, isSchema⟩
          exact ⟨later, member, isSchema⟩
        · intro found
          rcases found with ⟨later, member, isSchema⟩
          exact ⟨later, ⟨member, by rw [isSchema]; exact same⟩, isSchema⟩
      rw [kept]

/-- A further proposal counts if it is for a schema that none was made for. -/
theorem firsts_concat (proposals : List Proposal) (last : Proposal) :
    firsts (proposals ++ [last]) =
      if last.schema ∈ proposals.map (·.schema) then firsts proposals
      else firsts proposals ++ [last] := by
  induction proposals with
  | nil => rfl
  | cons proposal rest ih =>
    rw [List.cons_append, firsts, ih, firsts, List.map_cons]
    by_cases later : last.schema ∈ rest.map (·.schema)
    · rw [if_pos later, if_pos (List.mem_cons_of_mem _ later)]
    · rw [if_neg later, List.filter_append]
      by_cases same : last.schema = proposal.schema
      · rw [if_pos (by rw [same]; exact List.mem_cons_self)]
        simp [same]
      · rw [if_neg (by rw [List.mem_cons, not_or]; exact ⟨same, later⟩)]
        simp [same]

theorem nodup_firsts (proposals : List Proposal) :
    ((firsts proposals).map (·.schema)).Nodup := by
  induction proposals using List.reverseRecOn with
  | nil => exact List.nodup_nil
  | append_singleton proposals last ih =>
    rw [firsts_concat]
    split
    · exact ih
    · next fresh =>
      rw [← schema_mem_firsts_iff] at fresh
      rw [List.map_append, List.map_singleton, ← List.concat_eq_append]
      exact ih.concat fresh

theorem firsts_prefix (proposals more : List Proposal) :
    firsts proposals <+: firsts (proposals ++ more) := by
  induction more using List.reverseRecOn with
  | nil => simp
  | append_singleton more last ih =>
    rw [← List.append_assoc, firsts_concat]
    split
    · exact ih
    · exact ih.trans (List.prefix_append _ _)

/-! ## Registries -/

/-- A registry that was asked for the given proposals holds the first for each schema, and its names
are those that first fit gives to a front part of them. -/
structure Fitted (words : List String) (proposals : List Proposal) (naming : Naming) : Prop where
  consistent : Consistent (words.map lower) naming
  kept : naming.proposals = firsts proposals
  names : ∃ done waiting, naming.proposals = done ++ waiting ∧ naming.names = firstFit words done

theorem fitted_withReserved (words : List String) : Fitted words [] (withReserved words) :=
  ⟨consistent_withReserved words, rfl, [], [], rfl, rfl⟩

theorem proposals_register (naming : Naming) (schema : Nat) :
    (naming.register schema).proposals = naming.proposals := by
  unfold register
  split <;> rfl

section

variable {words : List String} {proposals : List Proposal} {naming : Naming}

theorem isProposed_iff_mem {schema : Nat} :
    naming.isProposed schema = true ↔ schema ∈ naming.proposals.map (·.schema) := by
  simp [isProposed, proposal?]

theorem Fitted.register (fitted : Fitted words proposals naming) (schema : Nat) :
    Fitted words proposals (naming.register schema) := by
  refine ⟨fitted.consistent.register schema, ?_, ?_⟩
  · rw [proposals_register, fitted.kept]
  · rw [proposals_register, names_register]
    exact fitted.names

theorem Fitted.propose (fitted : Fitted words proposals naming) (proposal : Proposal) :
    Fitted words (proposals ++ [proposal]) (naming.propose proposal) := by
  have already : (naming.register proposal.schema).isProposed proposal.schema = true ↔
      proposal.schema ∈ proposals.map (·.schema) := by
    rw [isProposed_iff_mem, proposals_register, fitted.kept, schema_mem_firsts_iff]
  rcases fitted.names with ⟨done, waiting, split, names⟩
  refine ⟨fitted.consistent.propose proposal, ?_, ?_⟩
  · rw [firsts_concat, Naming.propose]
    by_cases known : proposal.schema ∈ proposals.map (·.schema)
    · rw [if_pos (already.2 known), if_pos known, proposals_register, fitted.kept]
    · rw [if_neg (mt already.1 known), if_neg known]
      change (naming.register proposal.schema).proposals ++ [proposal] = _
      rw [proposals_register, fitted.kept]
  · rw [names_propose, names, Naming.propose]
    by_cases known : proposal.schema ∈ proposals.map (·.schema)
    · rw [if_pos (already.2 known), proposals_register]
      exact ⟨done, waiting, split, rfl⟩
    · rw [if_neg (mt already.1 known)]
      refine ⟨done, waiting ++ [proposal], ?_, rfl⟩
      change (naming.register proposal.schema).proposals ++ [proposal] = _
      rw [proposals_register, split, List.append_assoc]

theorem assign_of_isNamed {proposal : Proposal} (named : naming.isNamed proposal.schema = true) :
    naming.assign proposal = naming := by
  rw [assign, if_pos named]

/-- A schema without a name gets the first that fits. -/
theorem names_assign_of_fits {done : List Proposal} {proposal : Proposal}
    (consistent : Consistent (words.map lower) naming) (names : naming.names = firstFit words done)
    (unnamed : proposal.schema ∉ done.map (·.schema)) :
    (naming.assign proposal).names = firstFit words (done ++ [proposal]) := by
  have notNamed : ¬ naming.isNamed proposal.schema = true := by
    rw [isNamed_iff, namedSchemas, names, schemas_firstFit]
    exact unnamed
  rw [assign, if_neg notNamed, firstFit_concat, ← names]
  dsimp only
  rw [consistent.reserved, allocate_eq_fit]

/-- Going through proposals that have names changes nothing. -/
theorem foldl_assign_of_isNamed {done : List Proposal}
    (named : ∀ proposal ∈ done, naming.isNamed proposal.schema = true) :
    done.foldl assign naming = naming := by
  induction done with
  | nil => rfl
  | cons proposal done ih =>
    rw [List.foldl_cons, assign_of_isNamed (named proposal List.mem_cons_self)]
    exact ih fun other member => named other (List.mem_cons_of_mem _ member)

/-- Going through proposals that have none gives each in turn the first name that fits. -/
theorem names_foldl_assign {done waiting : List Proposal}
    (consistent : Consistent (words.map lower) naming) (names : naming.names = firstFit words done)
    (proposed : ∀ proposal ∈ waiting, naming.isProposed proposal.schema = true)
    (once : ((done ++ waiting).map (·.schema)).Nodup) :
    (waiting.foldl assign naming).names = firstFit words (done ++ waiting) := by
  induction waiting generalizing naming done with
  | nil => rw [List.append_nil, List.foldl_nil, names]
  | cons proposal waiting ih =>
    have unnamed : proposal.schema ∉ done.map (·.schema) := by
      intro member
      rw [List.map_append, List.map_cons, List.nodup_append] at once
      exact once.2.2 _ member _ List.mem_cons_self rfl
    have shifted : done ++ proposal :: waiting = done ++ [proposal] ++ waiting := by simp
    rw [List.foldl_cons, shifted]
    rw [shifted] at once
    apply ih
    · exact consistent.assign (proposed proposal List.mem_cons_self)
    · exact names_assign_of_fits consistent names unnamed
    · intro other member
      rw [isProposed_assign]
      exact proposed other (List.mem_cons_of_mem _ member)
    · exact once

theorem Fitted.names_finalize (fitted : Fitted words proposals naming) :
    naming.finalize.names = firstFit words (firsts proposals) := by
  rcases fitted.names with ⟨done, waiting, split, names⟩
  have named : ∀ proposal ∈ done, naming.isNamed proposal.schema = true := by
    intro proposal member
    rw [isNamed_iff, namedSchemas, names, schemas_firstFit]
    exact List.mem_map_of_mem member
  have once := nodup_firsts proposals
  rw [← fitted.kept, split] at once
  rw [finalize, split, List.foldl_append, foldl_assign_of_isNamed named, ← fitted.kept, split]
  refine names_foldl_assign fitted.consistent names (fun proposal member => ?_) once
  apply isProposed_of_mem
  rw [split]
  exact List.mem_append_right _ member

theorem Fitted.finalize (fitted : Fitted words proposals naming) :
    Fitted words proposals naming.finalize := by
  have same : naming.finalize.proposals = naming.proposals := proposals_foldl_assign _ _
  refine ⟨fitted.consistent.finalize, ?_, firsts proposals, [], ?_, fitted.names_finalize⟩
  · rw [same, fitted.kept]
  · rw [same, fitted.kept, List.append_nil]

theorem Fitted.apply (fitted : Fitted words proposals naming) (request : Request) :
    Fitted words (proposals ++ request.proposal?.toList) (request.apply naming) := by
  cases request with
  | propose proposal => exact fitted.propose proposal
  | register schema =>
    rw [Request.proposal?, Option.toList_none, List.append_nil]
    exact fitted.register schema
  | finalize =>
    rw [Request.proposal?, Option.toList_none, List.append_nil]
    exact fitted.finalize

end

/-- At every point of a run the names given so far are those of first fit. -/
theorem fitted_after (words : List String) (requests : List Request) :
    Fitted words (proposed requests) (after words requests) := by
  induction requests using List.reverseRecOn with
  | nil => exact fitted_withReserved words
  | append_singleton requests request ih =>
    have more : proposed (requests ++ [request]) =
        proposed requests ++ request.proposal?.toList := by
      rw [proposed, List.filterMap_append, List.filterMap_cons, List.filterMap_nil]
      cases request.proposal? <;> rfl
    rw [after_append, more]
    exact ih.apply request

/-- The names after a run that ends with finalizing. -/
theorem names_after_finalize (words : List String) (requests : List Request) :
    (after words (requests ++ [.finalize])).names =
      firstFit words (firsts (proposed requests)) := by
  rw [after_append]
  exact (fitted_after words requests).names_finalize

/-- Further requests keep the names that a finalized registry has given. -/
theorem names_prefix_of_more (words : List String) (requests more : List Request) :
    (after words (requests ++ [.finalize])).names <+:
      (after words (requests ++ more ++ [.finalize])).names := by
  have split : proposed (requests ++ more) = proposed requests ++ proposed more :=
    List.filterMap_append
  rcases firsts_prefix (proposed requests) (proposed more) with ⟨added, whole⟩
  rw [names_after_finalize, names_after_finalize, split, ← whole]
  exact firstFit_prefix words _ added

end Naming

/-! ## Descriptions -/

namespace Api

/-- The schemas that a description names itself have the names that they would have without any
paths. -/
theorem nameOf?_component {g : Graph} {document : Value} {normal : Normal}
    {components : List Proposal} (given : normalise g document = .ok normal)
    (named : componentProposals g document = .ok components) {proposal : Proposal}
    (member : proposal ∈ components) :
    ∃ name, normal.naming.nameOf? proposal.schema = some name ∧
      (nameAll components).nameOf? proposal.schema = some name := by
  rcases exists_proposals given with ⟨others, found, proposed, _, naming, _⟩
  rw [named] at proposed
  cases proposed
  rcases Naming.exists_nameOf?_of_mem (Naming.isNamed_iff.1 (isNamed_nameAll member))
    with ⟨name, isName⟩
  refine ⟨name, ?_, isName⟩
  have kept : (nameAll components).names <+:
      (nameAll (components ++ found.flatMap callProposals)).names := by
    rw [nameAll_eq_after, nameAll_eq_after, List.map_append]
    exact Naming.names_prefix_of_more _ _ _
  rw [naming]
  exact Naming.nameOf?_of_prefix kept isName

end Api

namespace Naming

/-- Naming is sequential first fit: the names of a finalized registry are those that the schemas get
one after the other, in the order of their first proposals. So it makes no difference when a
registry is finalized in between, later proposals change no name, and the schemas that two
descriptions name alike have the same names, whatever else the descriptions hold. -/
theorem names_first_fit :
    (∀ words requests, (after words (requests ++ [.finalize])).names =
      firstFit words (firsts (proposed requests))) ∧
    (∀ words requests others, proposed requests = proposed others →
      (after words (requests ++ [.finalize])).names =
        (after words (others ++ [.finalize])).names) ∧
    (∀ words requests more schema name,
      (after words (requests ++ [.finalize])).nameOf? schema = some name →
      (after words (requests ++ more ++ [.finalize])).nameOf? schema = some name) ∧
    ∀ (g h : Graph) (document another : Value) (normal other : Api.Normal) (f : Nat → Nat)
      (components : List Proposal), Function.Injective f →
      Api.normalise g document = .ok normal → Api.normalise h another = .ok other →
      Api.componentProposals g document = .ok components →
      Api.componentProposals h another = .ok (components.map (Proposal.renumber f)) →
      ∀ proposal ∈ components, ∃ name, normal.naming.nameOf? proposal.schema = some name ∧
        other.naming.nameOf? (f proposal.schema) = some name := by
  refine ⟨names_after_finalize, ?_, ?_, ?_⟩
  · intro words requests others same
    rw [names_after_finalize, names_after_finalize, same]
  · intro words requests more schema name found
    exact nameOf?_of_prefix (names_prefix_of_more words requests more) found
  · intro g h document another normal other f components injective given givenToo first second
      proposal member
    rcases Api.nameOf?_component given first member with ⟨name, found, own⟩
    rcases Api.nameOf?_component givenToo second (List.mem_map_of_mem member)
      with ⟨same, foundToo, ownToo⟩
    rw [Api.nameAll_renumber injective] at ownToo
    have renumbered := nameOf?_renumber injective (Api.nameAll components) proposal.schema
    change ((Api.nameAll components).renumber f).nameOf? (f proposal.schema) = _ at ownToo
    rw [renumbered, own] at ownToo
    cases ownToo
    exact ⟨name, found, foundToo⟩

/-- A description with two schemas whose names collide, one of them under another number, and a
path with a body schema or none. -/
def collidingNames (first second : Nat) (paths : Value) : Graph := ⟨#[
  .mapping [(.str "openapi", .str "3.0.0"), (.str "components", .node 1), (.str "paths", paths)],
  .mapping [(.str "schemas", .node 2)],
  .mapping [(.str "pet", .node first), (.str "Pet", .node second)],
  .mapping [], .mapping [],
  .mapping [(.str "/pet1", .node 6)],
  .mapping [(.str "post", .node 7)],
  .mapping [(.str "requestBody", .node 8)],
  .mapping [(.str "content", .node 9)],
  .mapping [(.str "json", .node 10)],
  .mapping [(.str "schema", .node 11)],
  .mapping []]⟩

/-- Two titles that ask for the same name. -/
theorem firstFit_colliding : firstFit [Api.topLevelTitle]
    [{ schema := 3, title := "pet" }, { schema := 4, title := "Pet" }] =
      [(3, "Pet"), (4, "Pet1")] := by
  have first : fit [Api.topLevelTitle] [] "pet" = "Pet" := by
    rw [← allocate_eq_fit]
    decide +kernel
  have second : fit [Api.topLevelTitle] [(3, "Pet")] "Pet" = "Pet1" := by
    rw [← allocate_eq_fit]
    decide +kernel
  change [(3, fit [Api.topLevelTitle] [] "pet"),
    (4, fit [Api.topLevelTitle] [(3, fit [Api.topLevelTitle] [] "pet")] "Pet")] = _
  rw [first, second]

open Api in
/-- The second of two schemas whose names collide gets a suffix, also if the first is named before.
The numbers of the schemas and the paths make no difference. -/
theorem names_first_fit_colliding :
    (after [topLevelTitle] [.propose { schema := 3, title := "pet" }, .finalize,
      .propose { schema := 4, title := "Pet" }, .finalize]).names = [(3, "Pet"), (4, "Pet1")] ∧
    ∃ normal other,
      normalise (collidingNames 3 4 (.node 5)) (.node 0) = .ok normal ∧
      normalise (collidingNames 4 3 (.scalar .null)) (.node 0) = .ok other ∧
      normal.naming.nameOf? 3 = other.naming.nameOf? 4 ∧
      normal.naming.nameOf? 4 = other.naming.nameOf? 3 := by
  constructor
  · exact (names_first_fit.1 [topLevelTitle] [.propose { schema := 3, title := "pet" }, .finalize,
      .propose { schema := 4, title := "Pet" }]).trans firstFit_colliding
  · obtain ⟨normal, given, _⟩ : ∃ normal,
        normalise (collidingNames 3 4 (.node 5)) (.node 0) = .ok normal ∧
        normal.naming.names.length = 3 := exists_of_toOption_map (by decide +kernel)
    obtain ⟨other, givenToo, _⟩ : ∃ other,
        normalise (collidingNames 4 3 (.scalar .null)) (.node 0) = .ok other ∧
        other.naming.names.length = 2 := exists_of_toOption_map (by decide +kernel)
    have alike := names_first_fit.2.2.2 _ _ _ _ normal other (Equiv.swap 3 4)
      [{ schema := 3, title := "pet" }, { schema := 4, title := "Pet" }] (Equiv.swap 3 4).injective
      given givenToo rfl (by decide)
    rcases alike _ List.mem_cons_self with ⟨name, own, same⟩
    rcases alike _ (List.mem_cons_of_mem _ List.mem_cons_self) with ⟨nameToo, ownToo, sameToo⟩
    exact ⟨normal, other, given, givenToo, own.trans same.symm, ownToo.trans sameToo.symm⟩

end Naming

end Typewright
