import Typewright.Proofs.Api.Closure
import Typewright.Proofs.Compile.Met
import Typewright.Proofs.TypeScript.Exports

/-!
# Whether mentioned names are exported

The declaration of a model mentions the names under which other definitions are declared, while the
models of these export the names that marking leaves. The model with an id has the text of the last
declaration that is read under the id (`Api.model?_spec`). So a mentioned name is exported exactly
if it is the name, as marked, of the last declaration under the id of the definition; and if the
names of definitions survive compilation, exactly if the definition is not generated
(`Api.resolves_iff`).
-/

namespace Typewright

open Text

/-! ## The model with an id -/

namespace Model

/-- The model with an id that is not excluded is that of the last definition with the id. -/
theorem find?_ofDefinitions {context : Context} {definitions : List Source.Definition} {id : String}
    (kept : id ∉ context.excludedIds.map lower) :
    (ofDefinitions context definitions).1.find? (·.id == id) =
      (definitions.reverse.find? (lower ·.title == id)).map fun definition =>
        (ofDefinition context definition).1 := by
  have read : ∀ definition : Source.Definition,
      decide ((!(context.excludedIds.map lower).contains (lower definition.title)) = true ∧
        (lower definition.title == id) = true) = (lower definition.title == id) := by
    intro definition
    by_cases here : lower definition.title = id
    · simp [here, kept]
    · simp [here]
  have own : ∀ definition, (ofDefinition context definition).1.id = lower definition.title :=
    fun _ => rfl
  rw [ofDefinitions_eq, Keyed.find?_ofList, keptOf, ← List.map_reverse, List.find?_map,
    ← List.filter_reverse, List.find?_filter]
  simp only [Function.comp_def, own, read]

end Model

/-! ## Searching related lists -/

/-- Searching related lists finds related elements. -/
theorem forall₂_find? {α β : Type} {related : α → β → Prop} {p : α → Bool} {q : β → Bool}
    {l : List α} {m : List β} (all : List.Forall₂ related l m)
    (same : ∀ a b, related a b → p a = q b) :
    Option.Rel (fun a b => related a b ∧ q b = true) (l.find? p) (m.find? q) := by
  induction all with
  | nil => exact .none
  | @cons a b l m first _ ih =>
    rw [List.find?_cons, List.find?_cons, same a b first]
    cases holds : q b with
    | true => exact .some ⟨first, holds⟩
    | false => exact ih

theorem rel_map {α β γ : Type} {related : α → β → Prop} {other : γ → β → Prop} {f : α → γ}
    {x : Option α} {y : Option β} (rel : Option.Rel related x y)
    (each : ∀ a b, related a b → other (f a) b) : Option.Rel other (x.map f) y := by
  cases rel with
  | none => exact .none
  | some facts => exact .some (each _ _ facts)

/-! ## Declarations under their ids -/

namespace Compile

/-- The last declaration that is read under an id. -/
def Source.declared? (source : Source) (id : String) : Option Declaration :=
  source.declarations.reverse.find? (lower ·.name == id)

theorem Source.mem_of_declared? {source : Source} {id : String} {s : Declaration}
    (last : source.declared? id = some s) : s ∈ source.declarations ∧ lower s.name = id :=
  ⟨List.mem_reverse.1 (List.mem_of_find?_eq_some last), by simpa using List.find?_some last⟩

/-- Declarations that are read under their names: no schema gives raw text for its type, none is a
constant enumeration, and all names are plain. -/
structure Readable (normal : Api.Normal) (source : Source) : Prop where
  noRaw : ∀ text, ¬ IsRawText (wholeJob normal.graph normal.definitions) text
  noEnum : ∀ s ∈ source.declarations, ∀ members, s.body ≠ .constEnum members
  plain : ∀ s ∈ source.declarations, IsPlainName s.name

section

variable {g : Graph} {document : Value} {normal : Api.Normal} {source : Source}
variable (made : wholeSource normal.graph normal.definitions = .ok source)
include made

/-- Of readable declarations one definition after the other is cut. -/
theorem forall₂_split (readable : Readable normal source) :
    List.Forall₂ Declaration.IsCutFrom
      ((Typewright.Source.split source.text.toList).definitions.map (·.1)) source.declarations := by
  have tame := isTame_of_noRaw made readable.noRaw
  obtain ⟨_, same⟩ := Declaration.isSplit_declarations tame
  rw [← toList_text made] at same
  rw [same]
  exact Declaration.forall₂_definitionsOf tame (fun s member => (readable.plain s member).isWord)
    readable.noEnum

/-- If names survive, a definition is the last declaration under its id. -/
theorem declared?_of_namesSurvive (given : Api.normalise g document = .ok normal)
    (survive : NamesSurvive normal source) {e : Declaration} {id : String}
    (isDeclared : e ∈ source.declarations)
    (defines : (id, .node e.schema) ∈ normal.definitions) :
    source.declared? id = some e ∧ lower e.name = id := by
  obtain ⟨entry, isEntry, read⟩ := name_of_definition given defines
  obtain ⟨before, own, after, split, isNode, named, apart⟩ :=
    survive _ defines entry isEntry read
  obtain ⟨draft, whole, same⟩ := exists_wholeDraft made
  have isOwn : e = own := by
    rw [split, List.mem_append, List.mem_cons] at isDeclared
    by_contra other
    refine schema_ne_of_around whole (by rw [← split, same])
      (List.mem_append.2 (isDeclared.imp_right fun here => here.resolve_left other)) ?_
    exact Value.node.inj isNode
  dsimp only at read
  have later : after.reverse.find? (lower ·.name == lower entry.2) = none := by
    refine List.find?_eq_none.2 fun other member => ?_
    rw [beq_iff_eq]
    exact apart other (List.mem_append_right _ (List.mem_reverse.1 member))
  rw [Source.declared?, split, isOwn, named, read]
  refine ⟨?_, rfl⟩
  rw [List.reverse_append, List.reverse_cons, List.append_assoc, List.find?_append, later,
    Option.none_or, List.singleton_append, List.find?_cons_of_pos (by rw [named, beq_self_eq_true])]

end

end Compile

/-! ## References -/

namespace Api

/-- The model with an id. -/
def Docs.model? (d : Docs) (id : String) : Option Model :=
  d.models.find? (·.id == id)

/-- The declaration of a model refers to another declaration, that of the definition with an id: it
mentions its name. -/
structure Docs.Refers (d : Docs) (normal : Normal) (source : Compile.Source) (s e : Declaration)
    (id : String) : Prop where
  isModel : ∃ m ∈ d.models, source.declared? m.id = some s
  isDeclared : e ∈ source.declarations
  defines : (id, .node e.schema) ∈ normal.definitions
  mentions : e.name ∈ s.body.names

/-- Every name by which the declaration of a model refers to another is exported by the model that
it stands for. -/
def Docs.Resolves (d : Docs) (normal : Normal) (source : Compile.Source) : Prop :=
  ∀ s e id, d.Refers normal source s e id →
    ∃ m, d.model? id = some m ∧ Source.Exports m.code e.name

/-- What the model with the id of a declaration exports. -/
def exportedName (normal : Normal) (s : Declaration) : String :=
  Declaration.exportedName (normal.generatedIds.contains (lower s.name)) s.name

theorem exportedName_eq_iff {normal : Normal} (s : Declaration) :
    s.name = exportedName normal s ↔ lower s.name ∉ normal.generatedIds := by
  rw [exportedName, Declaration.exportedName]
  by_cases generated : lower s.name ∈ normal.generatedIds
  · have longer : s.name ≠ "_" ++ s.name := by
      intro same
      have lengths := congrArg String.length same
      rw [String.length_append] at lengths
      simp at lengths
    simp [generated, longer]
  · simp [generated]

/-- A model that is made of a declaration: it has the id under which this is read, and exports its
name as marked, and nothing else. -/
def IsModelOf (normal : Normal) (m : Model) (s : Declaration) : Prop :=
  m.id = lower s.name ∧ ∀ name, ' ' ∉ name.toList →
    (Source.Exports m.code name ↔ name = exportedName normal s)

theorem isModelOf_of_isCutFrom {normal : Normal} {definition : Source.Definition} {s : Declaration}
    (cut : Declaration.IsCutFrom definition s) :
    IsModelOf normal (Model.ofDefinition (contextOf normal) definition).1 s := by
  obtain ⟨title, exports⟩ := cut
  have read : lower s.name = lower definition.title := by rw [title]
  rw [IsModelOf, exportedName, read]
  exact ⟨rfl, exports _⟩

theorem not_excluded_iff {normal : Normal} {id : String} :
    id ∉ (contextOf normal).excludedIds.map lower ↔ id ≠ lower topLevelTitle := by
  simp [contextOf]

section

variable {g : Graph} {document : Value} {d : Docs} {normal : Normal} {source : Compile.Source}
variable (given : normalise g document = .ok normal)
variable (made : Compile.wholeSource normal.graph normal.definitions = .ok source)
variable (readable : Compile.Readable normal source)
variable (models : d.models = (Model.ofDefinitions (contextOf normal)
  ((Source.split source.text.toList).definitions.map (·.1))).1)
include made readable models

/-- The model with an id is made of the last declaration under the id. -/
theorem model?_spec {id : String} (kept : id ≠ lower topLevelTitle) :
    Option.Rel (fun m s => IsModelOf normal m s ∧ (lower s.name == id) = true)
      (d.model? id) (source.declared? id) := by
  have last := @forall₂_find? _ _ _ (lower ·.title == id) (lower ·.name == id) _ _
    (List.rel_reverse (Compile.forall₂_split made readable)) fun definition s cut => by rw [cut.1]
  rw [Docs.model?, models, Model.find?_ofDefinitions (not_excluded_iff.2 kept)]
  exact rel_map last fun definition s cut => ⟨isModelOf_of_isCutFrom cut.1, cut.2⟩

include given

/-- A name that is mentioned is exported where the last declaration under the id exports it. -/
theorem resolves_iff_declared : d.Resolves normal source ↔
    ∀ s e id, d.Refers normal source s e id →
      ∃ last, source.declared? id = some last ∧ e.name = exportedName normal last := by
  refine forall_congr' fun s => forall_congr' fun e => forall_congr' fun id =>
    forall_congr' fun refers => ?_
  obtain ⟨entry, isEntry, rfl⟩ := Compile.name_of_definition given refers.defines
  have kept : lower entry.2 ∉ (contextOf normal).excludedIds.map lower :=
    (consistent_naming given).unreserved entry isEntry
  have spec := model?_spec made readable models (not_excluded_iff.1 kept)
  have noBlank : ' ' ∉ e.name.toList := fun blank =>
    absurd ((readable.plain e refers.isDeclared).isWord ' ' blank) (by decide)
  generalize d.model? (lower entry.2) = m at spec
  generalize source.declared? (lower entry.2) = last at spec
  cases spec with
  | none => simp
  | some facts => simpa using facts.1.2 e.name noBlank

/-- If names survive, a name that is mentioned is exported where the definition is not generated. -/
theorem resolves_iff_not_generated (survive : Compile.NamesSurvive normal source) :
    d.Resolves normal source ↔ ∀ s e id, d.Refers normal source s e id →
      id ∉ normal.generatedIds := by
  rw [resolves_iff_declared given made readable models]
  refine forall_congr' fun s => forall_congr' fun e => forall_congr' fun id =>
    forall_congr' fun refers => ?_
  obtain ⟨last, read⟩ := Compile.declared?_of_namesSurvive made given survive refers.isDeclared
    refers.defines
  rw [last, ← read, ← exportedName_eq_iff]
  simp

omit given made readable models in
/-- Where declarations are read under their names, what the declaration of a model refers to by name
stands in its text; and all such names are exported exactly if each is what the last declaration
under the id exports. If moreover the names of definitions survive compilation, they are exported
exactly if no generated schema is referred to: marking changes what its model exports, and not what
refers to it. -/
theorem resolves_iff (returned : docs g document .builtin = .ok d) :
    ∃ normal source, normalise g document = .ok normal ∧
      Compile.wholeSource normal.graph normal.definitions = .ok source ∧
      (Compile.Readable normal source →
        (∀ s e id, d.Refers normal source s e id → e.name.toList <:+: s.text.toList) ∧
        (d.Resolves normal source ↔ ∀ s e id, d.Refers normal source s e id →
          ∃ last, source.declared? id = some last ∧ e.name = exportedName normal last) ∧
        (Compile.NamesSurvive normal source →
          (d.Resolves normal source ↔ ∀ s e id, d.Refers normal source s e id →
            id ∉ normal.generatedIds))) := by
  obtain ⟨normal, source, given, made, _, models, _⟩ := exists_parts returned
  exact ⟨normal, source, given, made, fun readable =>
    ⟨fun _ _ _ refers => Declaration.infix_text_of_mem_names refers.mentions,
      resolves_iff_declared given made readable models,
      resolves_iff_not_generated given made readable models⟩⟩

end

/-- A description with a schema and an operation whose request body, which has no name, holds a
given schema as a property. -/
def requesting (target : Nat) : Graph :=
  ⟨#[.mapping [(.str "openapi", .str "3.0.0"), (.str "paths", .node 1),
      (.str "components", .node 9)],
    .mapping [(.str "/a", .node 2)],
    .mapping [(.str "post", .node 3)],
    .mapping [(.str "requestBody", .node 4)],
    .mapping [(.str "content", .node 5)],
    .mapping [(.str "application/json", .node 6)],
    .mapping [(.str "schema", .node 7)],
    .mapping [(.str "type", .str "object"), (.str "properties", .node 8)],
    .mapping [(.str "next", .node target)],
    .mapping [(.str "schemas", .node 10)],
    .mapping [(.str "Pet", .node 11)],
    .mapping [(.str "type", .str "object")]]⟩

/-- Whether the last declaration under one id mentions the definition with another. -/
def refersTo (normal : Normal) (source : Compile.Source) (own id : String) : Bool :=
  (source.declared? own).any fun s => source.declarations.any fun e =>
    normal.definitions.contains (id, .node e.schema) && s.body.names.contains e.name

section

variable {g : Graph} {document : Value} {d : Docs} {normal : Normal} {source : Compile.Source}
variable (made : Compile.wholeSource normal.graph normal.definitions = .ok source)
variable (readable : Compile.Readable normal source)
variable (models : d.models = (Model.ofDefinitions (contextOf normal)
  ((Source.split source.text.toList).definitions.map (·.1))).1)
include made readable models

/-- What is mentioned under an id that is not excluded is referred to by a model. -/
theorem exists_refers {own id : String} (kept : own ≠ lower topLevelTitle)
    (mentioned : refersTo normal source own id = true) :
    ∃ s e, d.Refers normal source s e id := by
  have spec := model?_spec made readable models kept
  cases last : source.declared? own with
  | none =>
    rw [refersTo, last] at mentioned
    cases mentioned
  | some s =>
    rw [last] at spec
    rw [refersTo, last, Option.any_some, List.any_eq_true] at mentioned
    obtain ⟨e, isDeclared, facts⟩ := mentioned
    simp only [Bool.and_eq_true, List.contains_iff_mem] at facts
    generalize found : d.model? own = m at spec
    cases spec with
    | @some m _ _ =>
      have isOwn : m.id = own := by simpa using List.find?_some found
      exact ⟨s, e, ⟨m, List.mem_of_find?_eq_some found, by rw [isOwn, last]⟩, isDeclared, facts.1,
        facts.2⟩

end

/-- Whether a description has no keywords for text, all names are plain, no other schema takes the
name of a definition, and a declaration besides the root mentions a generated schema or not. -/
def checkMarks (mentioned : Bool) (normal : Normal) (source : Compile.Source) : Bool :=
  Compile.hasNoExtensions (Compile.wholeJob normal.graph normal.definitions).graph &&
    (source.declarations.all fun s => s.name.toList.all fun c => c.isAlphanum || c == '_') &&
    !Compile.hasClash normal source &&
    (source.declarations.any fun s => lower s.name != lower topLevelTitle &&
      normal.generatedIds.any fun id => refersTo normal source (lower s.name) id) == mentioned

theorem of_checkMarks {g : Graph} {document : Value} {mentioned : Bool} {normal : Normal}
    {source : Compile.Source} (given : normalise g document = .ok normal)
    (made : Compile.wholeSource normal.graph normal.definitions = .ok source)
    (checked : checkMarks mentioned normal source = true) :
    Compile.Readable normal source ∧ Compile.NamesSurvive normal source ∧
      ((∃ s ∈ source.declarations, lower s.name ≠ lower topLevelTitle ∧
        ∃ id ∈ normal.generatedIds, refersTo normal source (lower s.name) id = true) ↔
          mentioned = true) := by
  simp only [checkMarks, Bool.and_eq_true, beq_iff_eq, Bool.not_eq_true'] at checked
  obtain ⟨⟨⟨keywords, names⟩, clash⟩, marks⟩ := checked
  have extensions := Compile.noExtensions_of_hasNoExtensions keywords
  refine ⟨⟨extensions.not_isRawText, Compile.not_constEnum_of_noExtensions made extensions,
    fun s member c inName => ?_⟩, (Compile.namesSurvive_iff_no_clash given made).2
      (Compile.hasClash_eq_false.1 clash), ?_⟩
  · have one := List.all_eq_true.1 (List.all_eq_true.1 names s member) c inName
    simpa using one
  · rw [← marks]
    simp

/-- The result for a description whose sources are known. -/
theorem exists_docs_models {g : Graph} {document : Value} {normal : Normal}
    {source : Compile.Source} (given : normalise g document = .ok normal)
    (made : Compile.wholeSource normal.graph normal.definitions = .ok source)
    (readable : Compile.Readable normal source) :
    ∃ d, docs g document .builtin = .ok d ∧ d.models = (Model.ofDefinitions (contextOf normal)
      ((Source.split source.text.toList).definitions.map (·.1))).1 := by
  obtain ⟨d, returned⟩ := exists_docs given made readable.noRaw
  obtain ⟨other, text, givenToo, madeToo, _, models, _⟩ := exists_parts returned
  rw [given] at givenToo
  cases givenToo
  rw [made] at madeToo
  cases madeToo
  exact ⟨d, returned, models⟩

theorem resolves_named_schema : ∃ d normal source,
    docs (requesting 11) (.node 0) .builtin = .ok d ∧
    normalise (requesting 11) (.node 0) = .ok normal ∧
    Compile.wholeSource normal.graph normal.definitions = .ok source ∧
    d.Resolves normal source ∧ ∃ s e, d.Refers normal source s e "pet" := by
  have computed : inspect? (requesting 11) (.node 0) (fun normal source =>
      checkMarks false normal source && refersTo normal source "a_requestbody" "pet") =
        some true := by
    decide +kernel
  obtain ⟨normal, source, given, made, checked⟩ := exists_of_inspect? computed
  rw [Bool.and_eq_true] at checked
  obtain ⟨checked, mentioned⟩ := checked
  obtain ⟨readable, survive, marks⟩ := of_checkMarks given made checked
  obtain ⟨d, returned, models⟩ := exists_docs_models given made readable
  obtain ⟨other, text, givenToo, madeToo, spec⟩ := resolves_iff returned
  rw [given] at givenToo
  cases givenToo
  rw [made] at madeToo
  cases madeToo
  refine ⟨d, normal, source, returned, given, made,
    ((spec readable).2.2 survive).2 fun s e id refers generated => ?_,
    exists_refers made readable models (by decide) mentioned⟩
  obtain ⟨m, isModel, last⟩ := refers.isModel
  obtain ⟨isDeclared, read⟩ := Compile.Source.mem_of_declared? last
  have kept : m.id ∉ (contextOf normal).excludedIds.map lower :=
    (Model.exists_of_ofDefinitions.1 ⟨m, models ▸ isModel, rfl⟩).2
  have mentioned : refersTo normal source (lower s.name) id = true := by
    rw [refersTo, read, last, Option.any_some, List.any_eq_true]
    exact ⟨e, refers.isDeclared, by simp [refers.defines, refers.mentions]⟩
  exact absurd (marks.1 ⟨s, isDeclared, by rw [read]; exact not_excluded_iff.1 kept, id, generated,
    mentioned⟩) (by decide)

/-- A request body that holds itself refers to its name without the mark. -/
theorem not_resolves_recursive_body : ∃ d normal source,
    docs (requesting 7) (.node 0) .builtin = .ok d ∧
    normalise (requesting 7) (.node 0) = .ok normal ∧
    Compile.wholeSource normal.graph normal.definitions = .ok source ∧
    ¬ d.Resolves normal source := by
  have computed : inspect? (requesting 7) (.node 0) (checkMarks true) = some true := by
    decide +kernel
  obtain ⟨normal, source, given, made, checked⟩ := exists_of_inspect? computed
  obtain ⟨readable, survive, marks⟩ := of_checkMarks given made checked
  obtain ⟨d, returned, models⟩ := exists_docs_models given made readable
  refine ⟨d, normal, source, returned, given, made, fun resolves => ?_⟩
  obtain ⟨_, _, kept, id, generated, mentioned⟩ := marks.2 rfl
  obtain ⟨s, e, refers⟩ := exists_refers made readable models kept mentioned
  exact (resolves_iff_not_generated given made readable models survive).1 resolves s e id refers
    generated

end Api

end Typewright
