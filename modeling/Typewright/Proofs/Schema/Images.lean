import Typewright.Proofs.Schema.Mirror

/-!
# The images of a copy

What the images of a schema's own containers hold and lead to, in a copy that is in place
(`Standalone.Copying`). Entries are set one after the other, so a title and a description that stand
in front are met again when the entries of the original follow: `foldl_put_after_title` and
`foldl_put_after_description` say what comes of that. Together these show that a copy mirrors its
schema (`Standalone.mirrors_of_copying`).
-/

namespace Typewright.Standalone

open Schema

/-! ## What was copied -/

section

variable {g copied : Graph} {naming : Naming} {root base : Nat} {members : List Nat}
variable {references : List Node}

theorem copyOf_lt {id : Nat} (member : id ∈ members) :
    copyOf base members id < base + members.length := by
  rw [copyOf]
  exact Nat.add_lt_add_left (List.idxOf_lt_length_of_mem member) base

theorem copyOf_injective {a b : Nat} (first : a ∈ members)
    (same : copyOf base members a = copyOf base members b) : a = b := by
  rw [copyOf, copyOf] at same
  exact (List.idxOf_inj first).1 (Nat.add_left_cancel same)

theorem copyOf_root (h : Graph) : copyOf base (Standalone.members h naming root) root = base := by
  obtain ⟨rest, first⟩ := Search.order_eq_cons (copiedWith h naming) h.size root
  rw [Standalone.members, first, copyOf, List.idxOf_cons_self]
  rfl

theorem exists_idOf? {id : Nat} (named : naming.isNamed id = true) :
    ∃ name, naming.idOf? id = some name := by
  rw [Naming.isNamed, Option.isSome_iff_exists] at named
  obtain ⟨name, found⟩ := named
  exact ⟨_, by rw [Naming.idOf?, found]; rfl⟩

variable (copying : Copying g copied naming root base members references)
variable (mappings : NamesMappings g naming)
include copying mappings

/-- What was copied stands for its original. -/
theorem standsFor_of_copiedValue {nested : List Nat} {v copy : Value}
    (one : CopiedValue g naming base (base + members.length) members references v copy) :
    StandsFor copied naming (Own (keptSuccessors g nested) naming root)
      (copyOf base members) v copy := by
  have replaced := isReplaced_eq_isNamed (Graph.Extends.refl g) mappings
  cases one with
  | scalar s => exact .scalar s
  | member kept => exact .own (by rw [← replaced, kept])
  | @reference id place gone held =>
    rw [replaced] at gone
    obtain ⟨name, found⟩ := exists_idOf? gone
    rw [found] at held
    refine .reference found (copying.reference place _ held) fun inside own same => ?_
    have early : copyOf base members inside < base + members.length :=
      copyOf_lt ((copying.member_iff inside).2 (own_of_kept own))
    omega

theorem entryStandsFor_of_copiedEntry {nested : List Nat} {entry copy : Scalar × Value}
    (one : CopiedEntry g naming base (base + members.length) members references entry copy) :
    EntryStandsFor copied naming (Own (keptSuccessors g nested) naming root)
      (copyOf base members) entry copy :=
  ⟨one.1, standsFor_of_copiedValue copying mappings one.2⟩

end

/-! ## Members of copies -/

/-- The own containers of a schema along the entries that its copy keeps. -/
abbrev KeptOwn (g : Graph) (naming : Naming) (root : Nat) : Nat → Prop :=
  Own (keptSuccessors g (dependencies g (.node root))) naming root

/-- A container of a copy: the image of an own container, or a reference apart from these. -/
def IsCopied (copied : Graph) (naming : Naming) (own : Nat → Prop) (image : Nat → Nat)
    (place : Nat) : Prop :=
  (∃ id, own id ∧ image id = place) ∨
    ∃ id name, naming.idOf? id = some name ∧
      copied.get? place = some (.mapping (referenceTo name)) ∧
      ∀ inside, own inside → image inside ≠ place

section

variable {copied : Graph} {naming : Naming} {own : Nat → Prop} {image : Nat → Nat}

theorem StandsFor.eq_image {id : Nat} {copy : Value}
    (one : StandsFor copied naming own image (.node id) copy)
    (unnamed : naming.isNamed id = false) : copy = .node (image id) := by
  cases one with
  | own _ => rfl
  | reference isNamed _ _ =>
    rw [Naming.idOf?, Option.map_eq_some_iff] at isNamed
    obtain ⟨name, found, _⟩ := isNamed
    rw [Naming.isNamed, found] at unnamed
    cases unnamed

theorem StandsFor.cases_node {v : Value} {place : Nat}
    (one : StandsFor copied naming own image v (.node place)) :
    (∃ id, v = .node id ∧ naming.isNamed id = false ∧ image id = place) ∨
      ∃ id name, naming.idOf? id = some name ∧
        copied.get? place = some (.mapping (referenceTo name)) ∧
        ∀ inside, own inside → image inside ≠ place := by
  cases one with
  | own unnamed => exact Or.inl ⟨_, rfl, unnamed, rfl⟩
  | reference isNamed found apart => exact Or.inr ⟨_, _, isNamed, found, apart⟩

end

/-! ## Entries of copies -/

section

variable {g copied : Graph} {naming : Naming} {own : Nat → Prop} {image : Nat → Nat}
variable {entries copies : Entries}

theorem keys_of_entriesStandFor
    (all : List.Forall₂ (EntryStandsFor copied naming own image) entries copies) :
    copies.map (·.1) = entries.map (·.1) := by
  induction all with
  | nil => rfl
  | cons one _ ih => rw [List.map_cons, List.map_cons, one.1, ih]

theorem distinct_of_entriesStandFor
    (all : List.Forall₂ (EntryStandsFor copied naming own image) entries copies)
    (distinct : entries.Distinct) : copies.Distinct := by
  rw [Entries.distinct_iff_keys, keys_of_entriesStandFor all, ← Entries.distinct_iff_keys]
  exact distinct

theorem keys_ne_of_entriesStandFor
    (all : List.Forall₂ (EntryStandsFor copied naming own image) entries copies) {text : String}
    (others : ∀ entry ∈ entries, entry.1 ≠ .str text) :
    ∀ entry ∈ copies, entry.1 ≠ .str text := by
  intro copy member same
  have key : copy.1 ∈ entries.map (·.1) := by
    rw [← keys_of_entriesStandFor all]
    exact List.mem_map_of_mem member
  obtain ⟨entry, present, equal⟩ := List.mem_map.1 key
  exact others entry present (by rw [equal, same])

/-- Entries that are picked by their keys are picked along with what stands for them. -/
theorem filter_standsFor (p : Scalar → Bool)
    (all : List.Forall₂ (EntryStandsFor copied naming own image) entries copies) :
    List.Forall₂ (EntryStandsFor copied naming own image) (entries.filter fun entry => p entry.1)
      (copies.filter fun entry => p entry.1) := by
  induction all with
  | nil => exact .nil
  | @cons entry copy entries copies one _ ih =>
    rw [List.filter_cons, List.filter_cons, one.1]
    split
    · exact .cons one ih
    · exact ih

theorem withoutDescription_standsFor
    (all : List.Forall₂ (EntryStandsFor copied naming own image) entries copies) :
    List.Forall₂ (EntryStandsFor copied naming own image) (withoutDescription entries)
      (withoutDescription copies) :=
  filter_standsFor (· != .str "description") all

theorem onlyDescription_standsFor
    (all : List.Forall₂ (EntryStandsFor copied naming own image) entries copies) :
    List.Forall₂ (EntryStandsFor copied naming own image) (onlyDescription entries)
      (onlyDescription copies) :=
  filter_standsFor (· == .str "description") all

theorem withoutDescription_eq_self (others : ∀ entry ∈ entries, entry.1 ≠ .str "description") :
    withoutDescription entries = entries := by
  rw [withoutDescription, List.filter_eq_self]
  intro entry member
  simpa using others entry member

theorem withoutDescription_idem : withoutDescription (withoutDescription entries) =
    withoutDescription entries := by
  rw [withoutDescription, withoutDescription, List.filter_filter]
  simp

/-- The entries around the description of a mapping. -/
theorem exists_around_description (distinct : copies.Distinct) {entry : Scalar × Value}
    (member : entry ∈ copies) (described : entry.1 = .str "description") :
    ∃ before after, copies = before ++ (.str "description", entry.2) :: after ∧
      (∀ other ∈ before, other.1 ≠ .str "description") ∧
      ∀ other ∈ after, other.1 ≠ .str "description" := by
  obtain ⟨before, after, split⟩ := List.append_of_mem member
  have key : entry = (.str "description", entry.2) := by rw [← described]
  rw [key] at split
  rw [split, Entries.Distinct, List.pairwise_append, List.pairwise_cons] at distinct
  refine ⟨before, after, split, fun other present same => ?_, fun other present same => ?_⟩
  · have apart := distinct.2.2 other present _ List.mem_cons_self
    rw [same, Bool.eq_false_iff] at apart
    exact apart (Scalar.sameKey_str.2 rfl)
  · have apart := distinct.2.1.1 other present
    rw [same, Bool.eq_false_iff] at apart
    exact apart (Scalar.sameKey_str.2 rfl)

/-- A mapping has one description. -/
theorem onlyDescription_eq (distinct : copies.Distinct) {entry : Scalar × Value}
    (member : entry ∈ copies) (described : entry.1 = .str "description") :
    onlyDescription copies = [(.str "description", entry.2)] := by
  obtain ⟨before, after, split, early, late⟩ :=
    exists_around_description distinct member described
  have none {others : Entries} (undescribed : ∀ other ∈ others, other.1 ≠ .str "description") :
      onlyDescription others = [] :=
    List.filter_eq_nil_iff.2 fun other present => by simpa using undescribed other present
  have keptBefore := none early
  have keptAfter := none late
  rw [onlyDescription] at keptBefore keptAfter ⊢
  rw [split, List.filter_append, List.filter_cons_of_pos (by simp), keptBefore, keptAfter,
    List.nil_append]

theorem lacks_pair {title described : Value} (untitled : ∀ entry ∈ copies, entry.1 ≠ .str "title")
    (others : ∀ entry ∈ copies, entry.1 ≠ .str "description") :
    ∀ entry ∈ copies, Entries.Lacks
      [(.str "title", title), (.str "description", described)] entry.1 := by
  intro entry member old present
  rw [Bool.eq_false_iff]
  rcases List.mem_cons.1 present with rfl | last
  · rw [ne_eq, Scalar.str_sameKey]
    exact untitled entry member
  · rw [List.mem_singleton.1 last, ne_eq, Scalar.str_sameKey]
    exact others entry member

/-- Setting entries after a title and a description: an own description takes the place of the one
before, and everything else follows. -/
theorem foldl_put_after_description (title described : Value) (distinct : copies.Distinct)
    (untitled : ∀ entry ∈ copies, entry.1 ≠ .str "title") :
    ∃ shown, copies.foldl (fun (all : Entries) entry => all.put entry.1 entry.2)
        [(.str "title", title), (.str "description", described)] =
          (.str "title", title) :: (.str "description", shown) :: withoutDescription copies ∧
      (∀ entry ∈ copies, entry.1 = .str "description" → entry.2 = shown) ∧
      ((∀ entry ∈ copies, entry.1 ≠ .str "description") → shown = described) := by
  by_cases others : ∀ entry ∈ copies, entry.1 ≠ .str "description"
  · refine ⟨described, ?_, fun entry member same => absurd same (others entry member), fun _ => rfl⟩
    rw [Entries.foldl_put_of_fresh _ distinct (lacks_pair untitled others),
      withoutDescription_eq_self others]
    rfl
  · push Not at others
    obtain ⟨entry, member, key⟩ := others
    obtain ⟨before, after, rfl, early, late⟩ := exists_around_description distinct member key
    have parts := distinct
    rw [Entries.Distinct, List.pairwise_append, List.pairwise_cons] at parts
    have untitledBefore : ∀ other ∈ before, other.1 ≠ .str "title" :=
      fun other present => untitled other (List.mem_append_left _ present)
    have untitledAfter : ∀ other ∈ after, other.1 ≠ .str "title" := fun other present =>
      untitled other (List.mem_append_right _ (List.mem_cons_of_mem _ present))
    refine ⟨entry.2, ?_, ?_, fun none => ?_⟩
    · rw [List.foldl_append, Entries.foldl_put_of_fresh _ parts.1 (lacks_pair untitledBefore early),
        List.foldl_cons]
      have placed : Entries.put ([(.str "title", title), (.str "description", described)] ++ before)
          (.str "description") entry.2 =
          [(.str "title", title), (.str "description", entry.2)] ++ before := by
        simp [Entries.put, Scalar.sameKey, Scalar.toInt?]
      rw [placed, Entries.foldl_put_of_fresh _ parts.2.1.2]
      · simp only [withoutDescription, List.filter_append, List.filter_cons, bne_self_eq_false,
          Bool.false_eq_true, if_false]
        have keptBefore := withoutDescription_eq_self early
        have keptAfter := withoutDescription_eq_self late
        rw [withoutDescription] at keptBefore keptAfter
        rw [keptBefore, keptAfter]
        simp
      · intro later present old earlier
        rcases List.mem_append.1 earlier with lead | inBefore
        · exact lacks_pair untitledAfter late later present old lead
        · exact parts.2.2 old inBefore later (List.mem_cons_of_mem _ present)
    · intro other present same
      rcases List.mem_append.1 present with inBefore | rest
      · exact absurd same (early other inBefore)
      · rcases List.mem_cons.1 rest with here | inAfter
        · rw [here]
        · exact absurd same (late other inAfter)
    · exact absurd rfl (none _ (List.mem_append_right _ List.mem_cons_self))

/-- Setting entries after a title: they follow. -/
theorem foldl_put_after_title (title : Value) (distinct : copies.Distinct)
    (untitled : ∀ entry ∈ copies, entry.1 ≠ .str "title") :
    copies.foldl (fun (all : Entries) entry => all.put entry.1 entry.2) [(.str "title", title)] =
      (.str "title", title) :: copies := by
  rw [Entries.foldl_put_of_fresh _ distinct]
  · rfl
  · intro entry member old present
    rw [List.mem_singleton.1 present, Bool.eq_false_iff, ne_eq, Scalar.str_sameKey]
    exact untitled entry member

end

/-! ## What images hold -/

theorem leading_eq_nil {g : Graph} {naming : Naming} {id : Nat} (entries : Entries)
    (unnamed : naming.isNamed id = false) : leading g naming id entries = [] := by
  rw [Naming.isNamed, Option.isSome_eq_false_iff, Option.isNone_iff_eq_none] at unnamed
  rw [leading, unnamed]

/-- A named schema's copy begins with its title, and with a description if one was proposed and its
own does not count as true. -/
theorem leading_cases {g : Graph} {naming : Naming} {id : Nat} {name : String} (entries : Entries)
    (named : naming.nameOf? id = some name) :
    leading g naming id entries = [(.str "title", .str name)] ∨
      ∃ text, naming.descriptionOf? id = some text ∧ text ≠ "" ∧
        ((entries.get? "description").map g.isTruthy).getD false = false ∧
        leading g naming id entries =
          [(.str "title", .str name), (.str "description", .str text)] := by
  rw [leading, named]
  simp only
  split
  · next text found =>
    split
    · exact Or.inl rfl
    · next proper =>
      rw [not_or, Bool.not_eq_true] at proper
      exact Or.inr ⟨text, found, proper.1, proper.2, rfl⟩
  · exact Or.inl rfl

theorem scalar_of_mem_leading {g : Graph} {naming : Naming} {id : Nat} {entries : Entries}
    {v : Value} (member : v ∈ (leading g naming id entries).map (·.2)) : v.node? = none := by
  cases named : naming.nameOf? id with
  | none =>
    rw [leading, named] at member
    cases member
  | some name =>
    rcases leading_cases (g := g) entries named with short | ⟨_, _, _, _, long⟩
    · rw [short, List.map_singleton, List.mem_singleton] at member
      rw [member]
      rfl
    · rw [long] at member
      simp only [List.map_cons, List.map_nil, List.mem_cons, List.not_mem_nil, or_false] at member
      rcases member with title | description
      · rw [title]
        rfl
      · rw [description]
        rfl

theorem get?_leading_refKey (g : Graph) (naming : Naming) (id : Nat) (entries : Entries) :
    (leading g naming id entries).get? refKey = none := by
  cases named : naming.nameOf? id with
  | none => rw [leading, named, Entries.get?_nil]
  | some name =>
    rcases leading_cases (g := g) entries named with short | ⟨_, _, _, _, long⟩
    · simp [short, Entries.get?_cons, refKey]
    · simp [long, Entries.get?_cons, refKey]

/-- The title of a structural dependency is not among the entries that its copy keeps. -/
theorem untitled_of_nested {nested : List Nat} {id : Nat} (inside : id ∈ nested)
    (entries : Entries) : ∀ entry ∈ keptEntries nested id entries, entry.1 ≠ .str "title" := by
  intro entry member same
  obtain ⟨key, value⟩ := entry
  have kept := List.of_mem_filter member
  simp only at same
  simp [same, inside] at kept

/-- The title of a defined schema is not among the entries that its own copy keeps. -/
theorem untitled_of_kept {g : Graph} {root : Nat} {entries : Entries}
    (defined : defined? g (.node root) = some root) :
    ∀ entry ∈ keptEntries (dependencies g (.node root)) root entries, entry.1 ≠ .str "title" :=
  untitled_of_nested ((mem_dependencies_iff defined).2 .refl) entries

theorem distinct_keptEntries {g : Graph} (wellFormed : g.WellFormed) {nested : List Nat} {id : Nat}
    {entries : Entries} (found : g.get? id = some (.mapping entries)) :
    (keptEntries nested id entries).Distinct :=
  (wellFormed.distinct found).sublist List.filter_sublist

section

variable {g copied : Graph} {naming : Naming} {root base : Nat} {members : List Nat}
variable {references : List Node}
variable (copying : Copying g copied naming root base members references)
variable (mappings : NamesMappings g naming)
include copying mappings

theorem image_sequence {nested : List Nat} {id : Nat} {items : List Value}
    (own : Own (keptSuccessors g nested) naming root id)
    (found : g.get? id = some (.sequence items)) :
    ∃ copies, copied.get? (copyOf base members id) = some (.sequence copies) ∧
      List.Forall₂ (StandsFor copied naming (Own (keptSuccessors g nested) naming root)
        (copyOf base members)) items copies := by
  obtain ⟨node, held, one⟩ := copying.image id ((copying.member_iff id).2 (own_of_kept own))
  cases one with
  | missing absent =>
    rw [found] at absent
    cases absent
  | sequence same all =>
    rw [found] at same
    cases same
    exact ⟨_, held, all.imp fun _ _ one => standsFor_of_copiedValue copying mappings one⟩
  | mapping same _ =>
    rw [found] at same
    cases same

theorem image_mapping {id : Nat} {entries : Entries} (own : KeptOwn g naming root id)
    (found : g.get? id = some (.mapping entries)) :
    ∃ copies, copied.get? (copyOf base members id) = some (.mapping
        (copies.foldl (fun all entry => all.put entry.1 entry.2) (leading g naming id entries))) ∧
      List.Forall₂ (EntryStandsFor copied naming (KeptOwn g naming root) (copyOf base members))
        (keptEntries (dependencies g (.node root)) id entries) copies := by
  obtain ⟨node, held, one⟩ := copying.image id ((copying.member_iff id).2 (own_of_kept own))
  cases one with
  | missing absent =>
    rw [found] at absent
    cases absent
  | sequence same _ =>
    rw [found] at same
    cases same
  | mapping same all =>
    rw [found] at same
    cases same
    exact ⟨_, held, all.imp fun _ _ one => entryStandsFor_of_copiedEntry copying mappings one⟩

variable (wellFormed : g.WellFormed) (defined : defined? g (.node root) = some root)
include wellFormed defined

/-- An image leads to images of what its original leads to, and to references. -/
theorem cases_of_leads_image {id place : Nat} (own : KeptOwn g naming root id)
    (leads : Search.Leads copied.successors (copyOf base members id) place) :
    (∃ b ∈ keptSuccessors g (dependencies g (.node root)) id,
      naming.isNamed b = false ∧ copyOf base members b = place) ∨
      ∃ b name, naming.idOf? b = some name ∧
        copied.get? place = some (.mapping (referenceTo name)) ∧
        ∀ inside, KeptOwn g naming root inside → copyOf base members inside ≠ place := by
  have small := own_lt_size wellFormed (lt_size_of_defined defined) (own_of_kept own)
  obtain ⟨node, found⟩ := Graph.exists_get?_of_lt small
  cases node with
  | mapping entries =>
    obtain ⟨copies, held, all⟩ := image_mapping copying mappings own found
    rw [Search.Leads, Graph.successors, held] at leads
    obtain ⟨w, inNode, isNode⟩ := List.mem_filterMap.1 leads
    rcases Entries.mem_values_foldl_put _ inNode with leading | inCopies
    · rw [scalar_of_mem_leading leading] at isNode
      cases isNode
    · obtain ⟨copy, present, rfl⟩ := List.mem_map.1 inCopies
      obtain ⟨entry, member, _, one⟩ := exists_original_of_mem all present
      rw [Value.node?_eq_some_iff.1 isNode] at one
      refine one.cases_node.imp_left ?_
      rintro ⟨b, isOriginal, unnamed, same⟩
      refine ⟨b, ?_, unnamed, same⟩
      rw [keptSuccessors, found]
      exact List.mem_filterMap.2 ⟨entry, member, by rw [isOriginal]; rfl⟩
  | sequence items =>
    obtain ⟨copies, held, all⟩ := image_sequence copying mappings own found
    rw [Search.Leads, Graph.successors, held] at leads
    obtain ⟨w, inNode, isNode⟩ := List.mem_filterMap.1 leads
    obtain ⟨v, member, one⟩ := exists_original_of_mem all inNode
    rw [Value.node?_eq_some_iff.1 isNode] at one
    refine one.cases_node.imp_left ?_
    rintro ⟨b, isOriginal, unnamed, same⟩
    refine ⟨b, ?_, unnamed, same⟩
    rw [keptSuccessors, found]
    exact List.mem_filterMap.2 ⟨v, member, by rw [isOriginal]; rfl⟩

/-- Everything that an image leads to is an image or a reference. -/
theorem isCopied_of_path {place : Nat}
    (path : Relation.ReflTransGen (Search.Leads copied.successors) (copyOf base members root)
      place) : IsCopied copied naming (KeptOwn g naming root) (copyOf base members) place := by
  induction path with
  | refl => exact Or.inl ⟨root, .refl, rfl⟩
  | tail _ leads ih =>
    rcases ih with ⟨b, own, rfl⟩ | ⟨b, name, _, held, _⟩
    · refine (cases_of_leads_image copying mappings wellFormed defined own leads).imp_left ?_
      rintro ⟨c, kept, unnamed, rfl⟩
      exact ⟨c, own.tail ⟨kept, unnamed⟩, rfl⟩
    · rw [Search.Leads, Graph.successors, held] at leads
      cases leads

variable (named : naming.isNamed root = true)
include named

omit copying mappings in
/-- No entry that is set in an image is lost. -/
theorem mem_image {id : Nat} {entries copies : Entries}
    (own : KeptOwn g naming root id)
    (found : g.get? id = some (.mapping entries))
    (all : List.Forall₂ (EntryStandsFor copied naming
      (KeptOwn g naming root) (copyOf base members))
      (keptEntries (dependencies g (.node root)) id entries) copies)
    {entry : Scalar × Value} (member : entry ∈ copies) :
    entry ∈ copies.foldl (fun all entry => all.put entry.1 entry.2)
      (leading g naming id entries) := by
  have distinct := distinct_of_entriesStandFor all (distinct_keptEntries wellFormed found)
  by_cases other : id = root
  · subst other
    have untitled := keys_ne_of_entriesStandFor all (untitled_of_kept defined)
    obtain ⟨name, isNamed⟩ := Option.isSome_iff_exists.1 named
    rcases leading_cases (g := g) entries isNamed with short | ⟨text, _, _, _, long⟩
    · rw [short, foldl_put_after_title _ distinct untitled]
      exact List.mem_cons_of_mem _ member
    · obtain ⟨shown, result, described, _⟩ :=
        foldl_put_after_description (.str name) (.str text) distinct untitled
      rw [long, result]
      by_cases key : entry.1 = .str "description"
      · have shownThere : entry = (.str "description", shown) :=
          Prod.ext key (described entry member key)
        rw [shownThere]
        exact List.mem_cons_of_mem _ List.mem_cons_self
      · refine List.mem_cons_of_mem _ (List.mem_cons_of_mem _ ?_)
        exact List.mem_filter.2 ⟨member, by simpa using key⟩
  · rw [leading_eq_nil entries (not_named_of_own own other),
      Entries.foldl_put_of_fresh _ distinct (by intro _ _ _ none; cases none)]
    exact member

/-- An image leads to the images of what its original leads to. -/
theorem leads_image {a b : Nat} (own : KeptOwn g naming root a)
    (leads : b ∈ keptSuccessors g (dependencies g (.node root)) a)
    (unnamed : naming.isNamed b = false) :
    Search.Leads copied.successors (copyOf base members a) (copyOf base members b) := by
  rw [keptSuccessors] at leads
  split at leads
  · next entries found =>
    obtain ⟨copies, held, all⟩ := image_mapping copying mappings own found
    obtain ⟨entry, member, isNode⟩ := List.mem_filterMap.1 leads
    obtain ⟨copy, present, _, one⟩ := exists_partner_of_mem all member
    rw [Value.node?_eq_some_iff.1 isNode] at one
    refine Graph.mem_successors_of_get? held ?_
    rw [← one.eq_image unnamed]
    exact List.mem_map_of_mem (mem_image wellFormed defined named own found all present)
  · next items found =>
    obtain ⟨copies, held, all⟩ := image_sequence copying mappings own found
    obtain ⟨v, member, isNode⟩ := List.mem_filterMap.1 leads
    obtain ⟨copy, present, one⟩ := exists_partner_of_mem all member
    rw [Value.node?_eq_some_iff.1 isNode] at one
    rw [one.eq_image unnamed] at present
    exact Graph.mem_successors_of_get? held present
  · cases leads

end

/-! ## The root of a copy -/

/-- Whether a description was proposed for a schema that has one of its own which counts as
false. -/
def HasIdleDescription (g : Graph) (naming : Naming) (id : Nat) (entries : Entries) : Prop :=
  (∃ text, naming.descriptionOf? id = some text ∧ text ≠ "") ∧
    ∃ own, entries.get? "description" = some own ∧ g.isTruthy own = false

section

variable {g copied : Graph} {naming : Naming} {root base : Nat} {members : List Nat}
variable {references : List Node}

theorem keys_ne_description {nested : List Nat} {id : Nat} {entries : Entries}
    (absent : entries.get? "description" = none) :
    ∀ entry ∈ keptEntries nested id entries, entry.1 ≠ .str "description" :=
  fun entry member => Entries.get?_eq_none_iff.1 absent entry (List.mem_of_mem_filter member)

/-- The entries of the root of a copy: its title first, then possibly a description, then what
stands for the entries that it keeps. -/
theorem image_root (copying : Copying g copied naming root base members references)
    (mappings : NamesMappings g naming) (wellFormed : g.WellFormed)
    (defined : defined? g (.node root) = some root) (named : naming.isNamed root = true)
    {entries : Entries} (found : g.get? root = some (.mapping entries)) :
    ∃ name copies, naming.nameOf? root = some name ∧
      copied.get? (copyOf base members root) =
        some (.mapping ((.str "title", .str name) :: copies)) ∧
      List.Forall₂ (EntryStandsFor copied naming (KeptOwn g naming root) (copyOf base members))
        (withoutDescription (keptEntries (dependencies g (.node root)) root entries))
        (withoutDescription copies) ∧
      (HasIdleDescription g naming root entries →
        List.Forall₂ (EntryStandsFor copied naming (KeptOwn g naming root) (copyOf base members))
          (onlyDescription (keptEntries (dependencies g (.node root)) root entries))
          (onlyDescription copies)) ∧
      (¬ HasIdleDescription g naming root entries → ∃ added rest, copies = added ++ rest ∧
        (added = [] ∨ ∃ text, naming.descriptionOf? root = some text ∧
          added = [(.str "description", .str text)]) ∧
        List.Forall₂ (EntryStandsFor copied naming (KeptOwn g naming root) (copyOf base members))
          (keptEntries (dependencies g (.node root)) root entries) rest) := by
  obtain ⟨copies, held, all⟩ := image_mapping copying mappings .refl found
  have distinct := distinct_of_entriesStandFor all (distinct_keptEntries wellFormed found)
  have untitled := keys_ne_of_entriesStandFor all (untitled_of_kept defined)
  obtain ⟨name, isNamed⟩ := Option.isSome_iff_exists.1 named
  rcases leading_cases (g := g) entries isNamed with short | ⟨text, proposed, proper, idle, long⟩
  · rw [short, foldl_put_after_title _ distinct untitled] at held
    exact ⟨name, copies, isNamed, held, withoutDescription_standsFor all,
      fun _ => onlyDescription_standsFor all, fun _ => ⟨[], copies, rfl, Or.inl rfl, all⟩⟩
  · obtain ⟨shown, result, same, made⟩ :=
      foldl_put_after_description (.str name) (.str text) distinct untitled
    rw [long, result] at held
    refine ⟨name, _, isNamed, held, ?_, fun idle => ?_, fun settled => ?_⟩
    · have dropped : withoutDescription
          ((.str "description", shown) :: withoutDescription copies) = withoutDescription copies := by
        rw [withoutDescription, List.filter_cons_of_neg (by simp)]
        exact withoutDescription_idem
      rw [dropped]
      exact withoutDescription_standsFor all
    · -- the own description has taken the place of the proposed one
      obtain ⟨_, own, held, _⟩ := idle
      have kept : (.str "description", own) ∈
          keptEntries (dependencies g (.node root)) root entries :=
        List.mem_filter.2 ⟨Entries.mem_of_get? held, by simp⟩
      obtain ⟨copy, present, key, _⟩ := exists_partner_of_mem all kept
      have one := onlyDescription_standsFor all
      rw [onlyDescription_eq distinct present key, same copy present key] at one
      have alone : onlyDescription ((.str "description", shown) :: withoutDescription copies) =
          [(.str "description", shown)] := by
        rw [onlyDescription, withoutDescription, List.filter_cons_of_pos (by simp),
          List.filter_filter]
        simp
      rwa [alone]
    · -- without an own description the proposed one stands before the others
      have absent : entries.get? "description" = none := by
        cases own : entries.get? "description" with
        | none => rfl
        | some v =>
          rw [own] at idle
          exact absurd ⟨⟨text, proposed, proper⟩, v, own, by simpa using idle⟩ settled
      have others := keys_ne_of_entriesStandFor all (keys_ne_description absent)
      rw [made others, withoutDescription_eq_self others]
      exact ⟨[(.str "description", .str text)], copies, rfl, Or.inr ⟨text, proposed, rfl⟩, all⟩

/-- A copy in place mirrors its schema. -/
theorem mirrors_of_copying (copying : Copying g copied naming root base members references)
    (mappings : NamesMappings g naming) (wellFormed : g.WellFormed)
    (defined : defined? g (.node root) = some root) (named : naming.isNamed root = true) :
    Mirrors g copied naming root (keptSuccessors g (dependencies g (.node root)))
      (HasIdleDescription g naming root) (copyOf base members) where
  injective a b own _ same :=
    copyOf_injective ((copying.member_iff a).2 (own_of_kept own)) same
  reached id own := by
    induction own with
    | refl => exact .refl
    | tail path step ih =>
      exact ih.tail (leads_image copying mappings wellFormed defined named path step.1 step.2)
  nothingElse _ path := isCopied_of_path copying mappings wellFormed defined path
  sequence _ _ own found := image_sequence copying mappings own found
  mapping id entries own other found := by
    obtain ⟨copies, held, all⟩ := image_mapping copying mappings own found
    have distinct := distinct_of_entriesStandFor all (distinct_keptEntries wellFormed found)
    rw [leading_eq_nil entries (not_named_of_own own other),
      Entries.foldl_put_of_fresh _ distinct (by intro _ _ _ none; cases none)] at held
    exact ⟨copies, held, all⟩
  root _ found := image_root copying mappings wellFormed defined named found

end

end Typewright.Standalone
