import Typewright.Proofs.Api.Normal
import Typewright.Proofs.Compile.Printed

/-!
# Splitting what was compiled

The source of a description is the text of its declarations as blocks, as long as no schema gives
raw text for its type. Splitting it finds a title for every declaration whose name begins with a
word character and that is no constant enumeration, and the title is as much of the name as is made
of word characters. The code that it gives for a declaration is the whole text of the declaration
exactly as long as no comment holds a second opening of a comment.
-/

namespace Typewright.Compile

open Text

/-! ## What is declared -/

section

variable {g : Graph} {definitions : List (String × Value)}

/-- Without raw texts, no schema that is considered gives one. -/
theorem noTypeTexts_wholeJob (noRaw : ∀ text, ¬ IsRawText (wholeJob g definitions) text) :
    NoTypeTexts (wholeJob g definitions) := by
  intro schema entries considered found
  rw [Bool.eq_false_iff]
  intro present
  obtain ⟨v, held⟩ := Option.isSome_iff_exists.1 present
  exact noRaw _ ⟨schema, entries, v, considered.visited rfl, found, held, rfl⟩

/-- The text of a source is that of its declarations, each ended by a line feed. -/
theorem toList_text {source : Source} (made : wholeSource g definitions = .ok source) :
    source.text.toList = (source.declarations.map fun d => d.text.toList).flatMap (· ++ ['\n']) := by
  obtain ⟨draft, whole, rfl⟩ := exists_wholeDraft made
  have inhabited : draft.declarations ≠ [] := by
    intro none
    have first := whole.rootFirst
    rw [← declarations_of_complete whole.complete, none] at first
    simp at first
  have stop : "\n".toList = ['\n'] := rfl
  change ("\n".intercalate ([] ++ draft.declarations.map Declaration.text) ++ "\n").toList = _
  rw [List.nil_append, String.toList_append, String.toList_intercalate, stop,
    intercalate_append_self (by simpa using inhabited), List.map_map]
  rfl

end

/-! ## Splitting -/

/-- No schema that a compilation visits has a keyword by which types or the names of their members
are given as text. -/
def NoExtensions (job : Job) : Prop :=
  ∀ schema entries, Visited job (.node schema) → job.graph.get? schema = some (.mapping entries) →
    entries.has "tsType" = false ∧ entries.has "tsEnumNames" = false

theorem NoExtensions.not_isRawText {job : Job} (plain : NoExtensions job) (text : String) :
    ¬ IsRawText job text := by
  rintro ⟨schema, entries, v, visited, found, held, _⟩
  have none := (plain schema entries visited found).1
  rw [Entries.has, held] at none
  cases none

/-- Whether no mapping at all has such a keyword. -/
def hasNoExtensions (g : Graph) : Bool :=
  g.nodes.toList.all fun
    | .mapping entries => !entries.has "tsType" && !entries.has "tsEnumNames"
    | .sequence _ => true

theorem noExtensions_of_hasNoExtensions {job : Job} (checked : hasNoExtensions job.graph = true) :
    NoExtensions job := by
  intro schema entries _ found
  simpa using Graph.of_all_nodes checked found

/-- What a name consists of if every reader agrees on its end. -/
def IsPlainName (name : String) : Prop :=
  ∀ c ∈ name.toList, c.isAlphanum = true ∨ c = '_'

theorem IsPlainName.isWord {name : String} (plain : IsPlainName name) :
    ∀ c ∈ name.toList, isWord c = true := by
  intro c member
  rcases plain c member with letter | rfl
  · have small : c.toNat < 128 := by
      have range := Char.isAlphanum_iff_toNat.1 letter
      omega
    rw [Text.isWord, if_pos small, letter, Bool.true_or]
  · decide

section

variable {g : Graph} {definitions : List (String × Value)} {source : Source}
variable (made : wholeSource g definitions = .ok source)
include made

/-- Without raw texts, what is declared in a source is tame. -/
theorem isTame_of_noRaw (noRaw : ∀ text, ¬ IsRawText (wholeJob g definitions) text) :
    ∀ d ∈ source.declarations, d.IsTame := by
  obtain ⟨draft, ran, rfl⟩ := exists_draft made
  exact fun d member => (run_prints (noTypeTexts_wholeJob noRaw) () draft ran).isTame member

variable (plain : NoExtensions (wholeJob g definitions))
include plain

theorem not_constEnum_of_noExtensions :
    ∀ d ∈ source.declarations, ∀ members, d.body ≠ .constEnum members := by
  obtain ⟨draft, whole, rfl⟩ := exists_wholeDraft made
  intro d member members shape
  obtain ⟨_, isBody⟩ := exists_of_mem_declarations member
  obtain ⟨entries, visited, found, _, fits⟩ := whole.bodies _ isBody
  change FitsBody _ _ _ d.body at fits
  rw [shape] at fits
  cases fits with
  | constEnum named given listed =>
    have none := (plain _ entries visited found).2
    rw [Job.listUnder?, Option.bind_eq_some_iff] at named
    obtain ⟨v, held, _⟩ := named
    rw [Entries.has, held] at none
    cases none

/-- What splitting a source gives: the right titles, and each declaration with its comment exactly
if no line of a comment opens another. -/
theorem split_spec (words : ∀ d ∈ source.declarations, IsPlainName d.name) :
    ∃ given, Source.IsSplit source.text.toList given ∧
      given.map Source.Definition.title = source.declarations.map Declaration.name ∧
      (given = source.declarations.map (fun d => ⟨d.name, d.text⟩) ↔
        ∀ d ∈ source.declarations, ∀ line ∈ d.comment.lines, ¬ ['/', '*'] <:+: line.toList) := by
  have tame := isTame_of_noRaw made plain.not_isRawText
  have areWords : ∀ d ∈ source.declarations, ∀ c ∈ d.name.toList, isWord c = true :=
    fun d member => (words d member).isWord
  have noEnum := not_constEnum_of_noExtensions made plain
  refine ⟨_, ?_, Declaration.titles_eq_names tame areWords noEnum,
    Declaration.definitionsOf_blocks_iff tame areWords noEnum⟩
  rw [toList_text made]
  exact Declaration.isSplit_declarations tame

/-- Splitting a source finds a declaration for each that was compiled, under its name and in order.
It gives back all of them, each with its comment and nothing else, exactly if no line of a comment
opens another. -/
theorem split_undoes_iff (words : ∀ d ∈ source.declarations, IsPlainName d.name) :
    (Source.split source.text.toList).failure = none ∧
      (Source.split source.text.toList).definitions.map (·.1.title) =
        source.declarations.map Declaration.name ∧
      ((Source.split source.text.toList).definitions.map (·.1) =
          source.declarations.map (fun d => ⟨d.name, d.text⟩) ↔
        ∀ d ∈ source.declarations, ∀ line ∈ d.comment.lines, ¬ ['/', '*'] <:+: line.toList) := by
  obtain ⟨given, ⟨fine, same⟩, titles, whole⟩ := split_spec made plain words
  have pieces : (Source.split source.text.toList).definitions.map (·.1.title) =
      ((Source.split source.text.toList).definitions.map (·.1)).map Source.Definition.title := by
    rw [List.map_map]
    rfl
  rw [pieces, same]
  exact ⟨fine, titles, whole⟩

end

/-- A description with two schemas, the second a string with the given description. -/
def describedText (description : String) : Graph :=
  ⟨#[.mapping [(.str "openapi", .str "3.0.0"), (.str "components", .node 1)],
    .mapping [(.str "schemas", .node 2)],
    .mapping [(.str "A", .node 3), (.str "B", .node 4)],
    .mapping [(.str "type", .str "object")],
    .mapping [(.str "type", .str "string"), (.str "description", .str description)]]⟩

/-- Whether no mapping of the graph that is compiled has a keyword for text, all names are plain,
and a line of a comment opens another or not. -/
def checkLines (opens : Bool) (normal : Api.Normal) (source : Source) : Bool :=
  hasNoExtensions (wholeJob normal.graph normal.definitions).graph &&
  (source.declarations.all fun d => d.name.toList.all fun c => c.isAlphanum || c == '_') &&
  ((source.declarations.any fun d =>
    d.comment.lines.any fun line => decide (['/', '*'] <:+: line.toList)) == opens)

theorem of_checkLines {opens : Bool} {normal : Api.Normal} {source : Source}
    (checked : checkLines opens normal source = true) :
    NoExtensions (wholeJob normal.graph normal.definitions) ∧
      (∀ d ∈ source.declarations, IsPlainName d.name) ∧
      ((∃ d ∈ source.declarations, ∃ line ∈ d.comment.lines, ['/', '*'] <:+: line.toList) ↔
        opens = true) := by
  simp only [checkLines, Bool.and_eq_true, beq_iff_eq] at checked
  obtain ⟨⟨keywords, names⟩, lines⟩ := checked
  refine ⟨noExtensions_of_hasNoExtensions keywords, fun d member c inName => ?_, ?_⟩
  · have one := List.all_eq_true.1 (List.all_eq_true.1 names d member) c inName
    simpa using one
  · rw [← lines]
    simp

theorem split_undoes_plain_description : ∃ normal source,
    Api.normalise (describedText "a word") (.node 0) = .ok normal ∧
    wholeSource normal.graph normal.definitions = .ok source ∧
    NoExtensions (wholeJob normal.graph normal.definitions) ∧
    (∀ d ∈ source.declarations, IsPlainName d.name) ∧
    (Source.split source.text.toList).definitions.map (·.1) =
      source.declarations.map (fun d => ⟨d.name, d.text⟩) := by
  have computed : Api.inspect? (describedText "a word") (.node 0) (checkLines false) = some true := by
    decide +kernel
  obtain ⟨normal, source, given, made, checked⟩ := Api.exists_of_inspect? computed
  obtain ⟨plain, words, opens⟩ := of_checkLines checked
  refine ⟨normal, source, given, made, plain, words,
    (split_undoes_iff made plain words).2.2.2 fun d member line isLine inside => ?_⟩
  exact absurd (opens.1 ⟨d, member, line, isLine, inside⟩) (by decide)

/-- A description in which a comment seems to open cuts off its beginning. -/
theorem split_cuts_media_range : ∃ normal source,
    Api.normalise (describedText "any image/* type") (.node 0) = .ok normal ∧
    wholeSource normal.graph normal.definitions = .ok source ∧
    NoExtensions (wholeJob normal.graph normal.definitions) ∧
    (∀ d ∈ source.declarations, IsPlainName d.name) ∧
    (Source.split source.text.toList).definitions.map (·.1) ≠
      source.declarations.map (fun d => ⟨d.name, d.text⟩) := by
  have computed : Api.inspect? (describedText "any image/* type") (.node 0) (checkLines true) =
      some true := by
    decide +kernel
  obtain ⟨normal, source, given, made, checked⟩ := Api.exists_of_inspect? computed
  obtain ⟨plain, words, opens⟩ := of_checkLines checked
  obtain ⟨d, member, line, isLine, inside⟩ := opens.2 rfl
  obtain ⟨_, ⟨_, same⟩, _, whole⟩ := split_spec made plain words
  refine ⟨normal, source, given, made, plain, words, fun undone => ?_⟩
  rw [same] at undone
  exact whole.1 undone d member line isLine inside

end Typewright.Compile
