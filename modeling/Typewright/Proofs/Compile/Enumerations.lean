import Typewright.Proofs.Compile.Bodies
import Typewright.Proofs.Compile.Declared
import Typewright.Proofs.Compile.Regular
import Typewright.Proofs.Identifier.Spelling

/-!
# The members of constant enumerations

A schema with a list of values and a list of names for them is declared as a constant enumeration,
if these are asked for. The names become identifiers and are paired with the values by position, so
a value without a name is lost, and names may come to the same identifier or to none at all.
`Compile.keepsValues_iff` says when every value has a member under a name of its own.
-/

namespace Typewright.Compile

/-- One member for each of the values, in order, under identifiers that are pairwise distinct. -/
structure KeepsValues (members : List (String × TypeExpr)) (values : List Value) : Prop where
  each : members.map (·.2) = values.map literal
  apart : (members.map (·.1)).Nodup
  identifiers : ∀ member ∈ members, Identifier.IsIdentifier member.1.toList

/-- The identifier that the name of a member becomes. -/
def memberName (g : Graph) (name : Value) : String :=
  Identifier.ofText (Display.value g name)

/-- A name becomes an identifier if something in it can begin one. -/
theorem isIdentifier_memberName_iff {g : Graph} {name : Value} :
    Identifier.IsIdentifier (memberName g name).toList ↔
      ∃ c ∈ Text.plain (Display.value g name).toList, Identifier.isStart c = true := by
  have empty : (memberName g name).toList = [] ↔
      ∀ c ∈ Text.plain (Display.value g name).toList, Identifier.isStart c = false := by
    rw [← Identifier.fromStart_eq_nil_iff]
    exact (Identifier.fromStart_ofText _).2
  constructor
  · intro ⟨c, rest, shape, _⟩
    by_contra none
    have nothing := empty.2 fun c member => Bool.eq_false_iff.2 fun start => none ⟨c, member, start⟩
    rw [nothing] at shape
    cases shape
  · intro ⟨c, member, start⟩
    refine Identifier.isIdentifier_of_settled (Identifier.settled_ofText _) fun nothing => ?_
    rw [empty.1 nothing c member] at start
    cases start

section

variable {job : Job} {names values : List Value}

theorem enumMembers_values : (job.enumMembers names values).map (·.2) =
    (values.take names.length).map literal := by
  rw [Job.enumMembers, List.map_map, List.zip_eq_zip_take_min]
  change List.map (literal ∘ Prod.snd) _ = _
  rw [← List.map_map, List.map_snd_zip (by simp)]
  congr 1
  apply List.take_eq_take_iff.2
  omega

theorem enumMembers_names : (job.enumMembers names values).map (·.1) =
    (names.take values.length).map (memberName job.graph) := by
  rw [Job.enumMembers, List.map_map, List.zip_eq_zip_take_min]
  change List.map (memberName job.graph ∘ Prod.fst) _ = _
  rw [← List.map_map, List.map_fst_zip (by simp)]
  congr 1
  apply List.take_eq_take_iff.2
  omega

/-- Every value has a member of its own exactly if there are enough names for the values, and these
become different identifiers, each with something in it that can begin one. -/
theorem keepsValues_enumMembers_iff : KeepsValues (job.enumMembers names values) values ↔
    values.length ≤ names.length ∧
      ((names.take values.length).map (memberName job.graph)).Nodup ∧
      ∀ name ∈ names.take values.length,
        ∃ c ∈ Text.plain (Display.value job.graph name).toList, Identifier.isStart c = true := by
  have spelled : (∀ member ∈ job.enumMembers names values,
        Identifier.IsIdentifier member.1.toList) ↔
      ∀ name ∈ names.take values.length, ∃ c ∈ Text.plain (Display.value job.graph name).toList,
        Identifier.isStart c = true := by
    have through : (∀ member ∈ job.enumMembers names values,
          Identifier.IsIdentifier member.1.toList) ↔
        ∀ name ∈ (job.enumMembers names values).map (·.1),
          Identifier.IsIdentifier name.toList := by simp
    rw [through, enumMembers_names, List.forall_mem_map]
    exact forall₂_congr fun _ _ => isIdentifier_memberName_iff
  have enough : (values.take names.length).map literal = values.map literal ↔
      values.length ≤ names.length := by
    constructor
    · intro same
      have lengths := congrArg List.length same
      simp only [List.length_map, List.length_take] at lengths
      omega
    · intro enough
      rw [List.take_of_length_le enough]
  constructor
  · intro keeps
    rw [← enumMembers_names]
    exact ⟨enough.1 (enumMembers_values.symm.trans keeps.each), keeps.apart,
      spelled.1 keeps.identifiers⟩
  · intro ⟨long, apart, begin⟩
    rw [← enumMembers_names] at apart
    exact ⟨enumMembers_values.trans (enough.2 long), apart, spelled.2 begin⟩

end

/-! ## Declarations -/

/-- A schema with values and names for them is declared as a constant enumeration. -/
theorem body_of_listed {job : Job} {inner : Inner} {around : List Nat} {schema : Nat}
    {entries : Entries} {names values : List Value} (enabled : job.options.constEnums = true)
    (listed : job.listUnder? entries "enum" = some values)
    (named : job.listUnder? entries "tsEnumNames" = some names) :
    job.body inner around schema entries = (do
      Error.refuseLong (job.hasLongMember names values)
      return .constEnum (job.enumMembers names values)) := by
  obtain ⟨choices, held, read⟩ := Option.bind_eq_some_iff.1 listed
  have noInterface : isInterface entries = false := by
    have has : entries.has "enum" = true := by rw [Entries.has, held, Option.isSome_some]
    simp [isInterface, has]
  have given := elements_of_items? read
  unfold Job.body
  rw [noInterface, enabled, held, named]
  simp only [given]
  rfl

/-- In a source with constant enumerations, a schema with a list of values and a list of names is
declared as one. -/
theorem body_eq_constEnum {g : Graph} {schema : Value} {options : Options} {source : Source}
    (enabled : options.constEnums = true) (made : Compile.source g schema options = .ok source)
    {d : Declaration} (member : d ∈ source.declarations) {entries : Entries}
    {names values : List Value} (found : g.get? d.schema = some (.mapping entries))
    (listed : (entries.get? "enum").bind g.items? = some values)
    (named : (entries.get? "tsEnumNames").bind g.items? = some names) :
    ∃ root, d.body = .constEnum (Job.enumMembers ⟨g, root, options⟩ names values) := by
  obtain ⟨root, draft, _, ran, same, _⟩ := exists_run_of_source made
  rw [same] at member
  obtain ⟨held, depth, around, before, after, there, _, compiled⟩ :=
    isBody_of_mem_declarations ran member
  change g.get? d.schema = _ at there
  rw [found] at there
  cases there
  have shape := @body_of_listed ⟨g, root, options⟩ (Job.expression ⟨g, root, options⟩ depth)
    around d.schema entries names values enabled listed named
  rw [shape] at compiled
  refine ⟨root, ?_⟩
  cases long : Job.hasLongMember ⟨g, root, options⟩ names values with
  | true =>
    rw [long] at compiled
    cases compiled
  | false =>
    rw [long] at compiled
    exact (congrArg Prod.fst (Except.ok.inj compiled)).symm

/-- Such a declaration keeps every value under a name of its own exactly if there are enough names,
and those that are paired with values become different identifiers, none of them empty. -/
theorem keepsValues_iff {g : Graph} {schema : Value} {options : Options} {source : Source}
    (enabled : options.constEnums = true) (made : Compile.source g schema options = .ok source)
    {d : Declaration} (member : d ∈ source.declarations) {entries : Entries}
    {names values : List Value} (found : g.get? d.schema = some (.mapping entries))
    (listed : (entries.get? "enum").bind g.items? = some values)
    (named : (entries.get? "tsEnumNames").bind g.items? = some names) :
    ∃ members, d.body = .constEnum members ∧ (KeepsValues members values ↔
      values.length ≤ names.length ∧ ((names.take values.length).map (memberName g)).Nodup ∧
        ∀ name ∈ names.take values.length,
          ∃ c ∈ Text.plain (Display.value g name).toList, Identifier.isStart c = true) := by
  obtain ⟨root, shape⟩ := body_eq_constEnum enabled made member found listed named
  exact ⟨_, shape, keepsValues_enumMembers_iff⟩

/-- The entries of a schema with values and names for them. -/
def choiceEntries : Entries :=
  [(.str "title", .str "Level"), (.str "enum", .node 1), (.str "tsEnumNames", .node 2)]

/-- Such a schema with two values and the given names. -/
def twoChoices (names : List String) : Graph :=
  ⟨#[.mapping choiceEntries, .sequence [.scalar (.int 1), .str "two"],
    .sequence (names.map Value.str)]⟩

theorem keepsValues_twoChoices : ∃ source members,
    Compile.source (twoChoices ["a-b", "2 c", "d"]) (.node 0) {} = .ok source ∧
      source.declarations.map Declaration.body = [.constEnum members] ∧
      KeepsValues members [.scalar (.int 1), .str "two"] := by
  obtain ⟨source, made, single⟩ : ∃ source,
      Compile.source (twoChoices ["a-b", "2 c", "d"]) (.node 0) {} = .ok source ∧
        source.declarations.map Declaration.schema = [0] :=
    exists_of_toOption_map (by decide +kernel)
  obtain ⟨d, only, isRoot⟩ := List.map_eq_singleton_iff.1 single
  have found : (twoChoices ["a-b", "2 c", "d"]).get? d.schema = some (.mapping choiceEntries) := by
    rw [isRoot]
    rfl
  obtain ⟨members, shape, keeps⟩ := keepsValues_iff rfl made (only ▸ List.mem_singleton_self d)
    found rfl rfl
  have begins : (["a-b", "2 c"].map Value.str).all (fun name => (Text.plain (Display.value
      (twoChoices ["a-b", "2 c", "d"]) name).toList).any Identifier.isStart) = true := by
    decide +kernel
  refine ⟨source, members, made, by rw [only, List.map_singleton, shape],
    keeps.2 ⟨by decide, by decide +kernel, fun name paired => ?_⟩⟩
  exact List.any_eq_true.1 (List.all_eq_true.1 begins name paired)

/-- Two names that differ in what an identifier cannot hold come to one name for both values. -/
theorem not_keepsValues_twoChoices : ∃ source members,
    Compile.source (twoChoices ["a-b", "a b"]) (.node 0) {} = .ok source ∧
      source.declarations.map Declaration.body = [.constEnum members] ∧
      ¬ KeepsValues members [.scalar (.int 1), .str "two"] := by
  obtain ⟨source, made, single⟩ : ∃ source,
      Compile.source (twoChoices ["a-b", "a b"]) (.node 0) {} = .ok source ∧
        source.declarations.map Declaration.schema = [0] :=
    exists_of_toOption_map (by decide +kernel)
  obtain ⟨d, only, isRoot⟩ := List.map_eq_singleton_iff.1 single
  have found : (twoChoices ["a-b", "a b"]).get? d.schema = some (.mapping choiceEntries) := by
    rw [isRoot]
    rfl
  obtain ⟨root, shape⟩ := body_eq_constEnum rfl made (only ▸ List.mem_singleton_self d)
    found rfl rfl
  refine ⟨source, _, made, by rw [only, List.map_singleton, shape], fun keeps => ?_⟩
  have same : ["AB", "AB"].Nodup := by
    have names : ([Value.str "a-b", .str "a b"].map
        (memberName (twoChoices ["a-b", "a b"]))) = ["AB", "AB"] := by decide +kernel
    rw [← names]
    exact (keepsValues_enumMembers_iff.1 keeps).2.1
  exact absurd same (by decide)

end Typewright.Compile
