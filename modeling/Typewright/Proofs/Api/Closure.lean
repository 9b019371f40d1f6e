import Typewright.Api.Models
import Typewright.Proofs.Compile.Names
import Typewright.Proofs.Compile.Splitting

/-!
# Whether every mentioned model is there

The ids that a result mentions are names of schemas in lower case, and every such name is declared
(`Compile.exists_declaration_of_name`). The models, however, are found by reading the text of the
declarations again. What is read of a declaration is its name up to the first dollar sign, and
nothing of a constant enumeration; a result is closed exactly if this suffices for every id that it
mentions (`Api.closed_iff`).
-/

namespace Typewright

open Text

/-! ## Models of definitions -/

namespace Model

theorem put_eq : put = Keyed.put Model.id := by
  funext models new
  induction models with
  | nil => rfl
  | cons old rest ih => rw [put, ih, Keyed.put]

/-- Definitions that are not excluded. -/
def keptOf (context : Context) (definitions : List Source.Definition) : List Source.Definition :=
  definitions.filter fun definition =>
    !(context.excludedIds.map lower).contains (lower definition.title)

theorem mem_keptOf {context : Context} {definitions : List Source.Definition}
    {definition : Source.Definition} : definition ∈ keptOf context definitions ↔
      definition ∈ definitions ∧ lower definition.title ∉ context.excludedIds.map lower := by
  simp [keptOf]

/-- Models of definitions that are not excluded are set one after the other under their ids. -/
theorem ofDefinitions_eq (context : Context) (definitions : List Source.Definition) :
    (ofDefinitions context definitions).1 = Keyed.ofList Model.id
      ((keptOf context definitions).map fun definition => (ofDefinition context definition).1) := by
  rw [ofDefinitions, Keyed.ofList, ← put_eq, keptOf]
  dsimp only
  rw [List.foldl_map, List.foldl_map]

/-- The ids of models are those of the definitions that are not excluded. -/
theorem exists_of_ofDefinitions {context : Context} {definitions : List Source.Definition}
    {id : String} : (∃ m ∈ (ofDefinitions context definitions).1, m.id = id) ↔
      (∃ definition ∈ definitions, lower definition.title = id) ∧
        id ∉ context.excludedIds.map lower := by
  rw [ofDefinitions_eq, Keyed.exists_mem_ofList_iff]
  constructor
  · rintro ⟨_, made, rfl⟩
    obtain ⟨definition, kept, rfl⟩ := List.mem_map.1 made
    obtain ⟨member, notExcluded⟩ := mem_keptOf.1 kept
    exact ⟨⟨definition, member, rfl⟩, notExcluded⟩
  · rintro ⟨⟨definition, member, rfl⟩, notExcluded⟩
    exact ⟨_, List.mem_map_of_mem (mem_keptOf.2 ⟨member, notExcluded⟩), rfl⟩

/-- Extraction fails exactly where splitting does. -/
theorem extract_eq_ok_iff {context : Context} {source : String}
    {result : List Model × List Warning} :
    extract context source = .ok result ↔ (Source.split source.toList).failure = none ∧
      ofDefinitions context ((Source.split source.toList).definitions.map (·.1)) = result := by
  unfold extract
  dsimp only
  cases (Source.split source.toList).failure with
  | some failure => simp
  | none => simp

/-- What a model depends on has a name. -/
theorem exists_name_of_dependency {context : Context} {definitions : List Source.Definition}
    {m : Model} (member : m ∈ (ofDefinitions context definitions).1) {id : String}
    (depends : id ∈ m.dependencies) : ∃ entry ∈ context.naming.names, lower entry.2 = id := by
  rw [ofDefinitions_eq] at member
  obtain ⟨definition, _, rfl⟩ := List.mem_map.1 (Keyed.mem_of_mem_ofList member)
  rw [ofDefinition] at depends
  dsimp only at depends
  cases found : (context.schemas.find? (·.1 == lower definition.title)).map (·.2) with
  | none =>
    rw [found] at depends
    cases depends
  | some schema =>
    rw [found] at depends
    have listed := (List.mem_filter.1 (List.mem_eraseDups.1 depends)).1
    obtain ⟨other, _, named⟩ := List.mem_filterMap.1 listed
    obtain ⟨name, isName, rfl⟩ := Option.map_eq_some_iff.1 named
    exact ⟨_, Naming.mem_names_of_nameOf? isName, rfl⟩

end Model

/-! ## Names that are declared -/

namespace Compile

/-- The name that a schema asks for is given, to it or to another. -/
theorem Assigned.exists_of_titled {job : Job} {names : List (Nat × String)}
    (assigned : Assigned job names) {schema : Nat} {entries : Entries} {name : String}
    (named : schema ∈ names.map (·.1)) (found : job.graph.get? schema = some (.mapping entries))
    (titled : entries.get? "title" = some (.str name)) (isName : Naming.IsName name) :
    ∃ entry ∈ names, entry.2 = name := by
  induction assigned with
  | nil => cases named
  | @add names other others standIn title _ _ _ otherFound _ asked ih =>
    rw [List.map_append, List.mem_append] at named
    rcases named with old | new
    · obtain ⟨entry, member, same⟩ := ih old
      exact ⟨entry, List.mem_append_left _ member, same⟩
    · rw [List.map_singleton, List.mem_singleton] at new
      subst new
      rw [found] at otherFound
      cases otherFound
      have asks := titleName_of_isName titled isName asked
      subst asks
      by_cases taken : ∃ entry ∈ names, entry.2 = title
      · obtain ⟨entry, member, same⟩ := taken
        exact ⟨entry, List.mem_append_left _ member, same⟩
      · push Not at taken
        exact ⟨_, List.mem_append_right _ (List.mem_singleton.2 rfl), freeName_of_not_taken taken⟩

/-- For every name of a schema there is a declaration with exactly this name. -/
theorem exists_declaration_of_name {g : Graph} {document : Value} {normal : Api.Normal}
    {source : Source} (given : Api.normalise g document = .ok normal)
    (made : wholeSource normal.graph normal.definitions = .ok source) {entry : Nat × String}
    (member : entry ∈ normal.naming.names) :
    ∃ d ∈ source.declarations, d.name = entry.2 := by
  obtain ⟨draft, whole, rfl⟩ := exists_wholeDraft made
  obtain ⟨place, entries, inDefinitions, found, titled, plain⟩ := definition_of_name given member
  have named := whole.each _ inDefinitions place entries entry.2 rfl found plain titled
  obtain ⟨other, inNames, same⟩ := whole.assigned.exists_of_titled named found titled
    ((Api.consistent_naming given).isName entry member)
  rw [← declarations_of_complete whole.complete] at inNames
  obtain ⟨d, isDeclared, rfl⟩ := List.mem_map.1 inNames
  exact ⟨d, isDeclared, same⟩

end Compile

/-! ## Closure -/

namespace Api

/-- An id that a result mentions: of the schema of an endpoint, or of a dependency. -/
def Docs.Mentions (d : Docs) (id : String) : Prop :=
  (∃ e ∈ d.endpoints, e.requestModel = some id ∨ ∃ entry ∈ e.responseModels, entry.2 = id) ∨
    ∃ m ∈ d.models, id ∈ m.dependencies

/-- Every id that a result mentions is that of one of its models. -/
def Docs.Closed (d : Docs) : Prop :=
  ∀ id, d.Mentions id → ∃ m ∈ d.models, m.id = id

/-- What extraction is given for a normalised description. -/
def contextOf (normal : Normal) : Model.Context where
  graph := normal.graph
  naming := normal.naming
  schemas := normal.schemas
  generatedIds := normal.generatedIds
  excludedIds := [topLevelTitle]

/-- Whether an id is what is read of a declaration: no constant enumeration, and its name up to the
first dollar sign in lower case. -/
def IsReadAs (declaration : Declaration) (id : String) : Prop :=
  (∀ members, declaration.body ≠ .constEnum members) ∧
    lower (String.ofList (Source.leadingWord declaration.name)) = id

theorem isReadAs_iff {declaration : Declaration} {id : String} (proper : id ≠ "") :
    IsReadAs declaration id ↔
      ∃ head, declaration.headOf = some head ∧ lower (String.ofList head.title) = id := by
  have unnamed : lower (String.ofList []) ≠ id := by
    have empty : lower (String.ofList []) = "" := by decide
    rw [empty]
    exact proper.symm
  rw [IsReadAs, Declaration.headOf]
  cases declaration.body with
  | constEnum members => simp
  | interface type =>
    dsimp only
    cases Source.leadingWord declaration.name with
    | nil => simp [unnamed]
    | cons c rest => simp
  | «alias» type =>
    dsimp only
    cases Source.leadingWord declaration.name with
    | nil => simp [unnamed]
    | cons c rest => simp

variable {g : Graph} {document : Value} {d : Docs}

/-- The parts of a result of the built-in compiler. -/
theorem exists_parts (returned : docs g document .builtin = .ok d) :
    ∃ normal source, normalise g document = .ok normal ∧
      Compile.wholeSource normal.graph normal.definitions = .ok source ∧
      (Source.split source.text.toList).failure = none ∧
      d.models = (Model.ofDefinitions (contextOf normal)
        ((Source.split source.text.toList).definitions.map (·.1))).1 ∧
      d.endpoints = normal.endpoints := by
  rw [docs] at returned
  obtain ⟨normal, given, returned⟩ := exists_of_bind_ok returned
  obtain ⟨⟨text, warnings, run⟩, compiled, returned⟩ := exists_of_bind_ok returned
  rw [Compiler.apply] at compiled
  obtain ⟨source, made, compiled⟩ := exists_of_bind_ok compiled
  cases compiled
  obtain ⟨⟨models, more⟩, extracted, returned⟩ := exists_of_bind_ok returned
  cases returned
  obtain ⟨fine, same⟩ := Model.extract_eq_ok_iff.1 extracted
  exact ⟨normal, source, given, made, fine, (congrArg Prod.fst same).symm, rfl⟩

section

variable {normal : Normal} {source : Compile.Source}
variable (given : normalise g document = .ok normal)
variable (made : Compile.wholeSource normal.graph normal.definitions = .ok source)

include given in
/-- Only names of schemas are mentioned. -/
theorem exists_name_of_mentions {definitions : List Source.Definition}
    (models : d.models = (Model.ofDefinitions (contextOf normal) definitions).1)
    (endpoints : d.endpoints = normal.endpoints) {id : String} (mentions : d.Mentions id) :
    ∃ entry ∈ normal.naming.names, lower entry.2 = id := by
  have named : ∀ schema, normal.naming.isNamed schema = true →
      ∃ entry ∈ normal.naming.names, lower entry.2 = idOf normal.naming schema := by
    intro schema isNamed
    rw [Naming.isNamed, Option.isSome_iff_exists] at isNamed
    obtain ⟨name, found⟩ := isNamed
    exact ⟨_, Naming.mem_names_of_nameOf? found, by rw [idOf, Naming.idOf?, found]; rfl⟩
  rcases mentions with ⟨e, member, mentioned⟩ | ⟨m, member, depends⟩
  · rw [endpoints] at member
    obtain ⟨call, rfl, requests, responses⟩ := isNamed_of_endpoint given member
    rcases mentioned with request | ⟨entry, response, rfl⟩
    · obtain ⟨schema, isRequest, rfl⟩ := Option.map_eq_some_iff.1 request
      exact named schema (requests schema isRequest)
    · obtain ⟨pair, isResponse, rfl⟩ := List.mem_map.1 response
      exact named pair.2 (responses pair isResponse)
  · rw [models] at member
    exact Model.exists_name_of_dependency member depends

include given in
/-- The ids of models, of those that can be mentioned, are those of the definitions that are read. -/
theorem closed_iff_titles {definitions : List Source.Definition}
    (models : d.models = (Model.ofDefinitions (contextOf normal) definitions).1)
    (endpoints : d.endpoints = normal.endpoints) :
    d.Closed ↔ ∀ id, d.Mentions id → ∃ definition ∈ definitions, lower definition.title = id := by
  refine forall_congr' fun id => forall_congr' fun mentions => ?_
  obtain ⟨entry, isEntry, rfl⟩ := exists_name_of_mentions given models endpoints mentions
  rw [models, Model.exists_of_ofDefinitions, and_iff_left]
  exact (consistent_naming given).unreserved entry isEntry

include made in
/-- What splitting a source without raw texts gives, by titles. -/
theorem split_titles
    (noRaw : ∀ text, ¬ Compile.IsRawText (Compile.wholeJob normal.graph normal.definitions) text) :
    (Source.split source.text.toList).failure = none ∧
      ∀ id, id ≠ "" → ((∃ definition ∈ (Source.split source.text.toList).definitions.map (·.1),
        lower definition.title = id) ↔
          ∃ declaration ∈ source.declarations, IsReadAs declaration id) := by
  have tame := Compile.isTame_of_noRaw made noRaw
  obtain ⟨fine, same⟩ := Declaration.isSplit_declarations tame
  rw [← Compile.toList_text made] at fine same
  refine ⟨fine, fun id proper => ?_⟩
  have titles := Declaration.titles_of_declarations tame
  rw [← same] at titles
  have byTitle : (∃ definition ∈ (Source.split source.text.toList).definitions.map (·.1),
      lower definition.title = id) ↔
        ∃ title ∈ ((Source.split source.text.toList).definitions.map (·.1)).map
          Source.Definition.title, lower title = id := by
    simp
  rw [byTitle, titles]
  constructor
  · rintro ⟨title, member, same⟩
    obtain ⟨head, isHead, rfl⟩ := List.mem_map.1 member
    obtain ⟨declaration, isDeclared, found⟩ := List.mem_filterMap.1 isHead
    exact ⟨declaration, isDeclared, (isReadAs_iff proper).2 ⟨head, found, same⟩⟩
  · rintro ⟨declaration, isDeclared, isRead⟩
    obtain ⟨head, found, same⟩ := (isReadAs_iff proper).1 isRead
    exact ⟨_, List.mem_map.2 ⟨head, List.mem_filterMap.2 ⟨declaration, isDeclared, found⟩, rfl⟩,
      same⟩

include given made in
/-- Without raw texts in its types, what is compiled is read without a failure. -/
theorem exists_docs
    (noRaw : ∀ text, ¬ Compile.IsRawText (Compile.wholeJob normal.graph normal.definitions) text) :
    ∃ d, docs g document .builtin = .ok d := by
  have compiled : Compiler.builtin.apply normal = .ok (source.text, source.warnings, none) := by
    rw [Compiler.apply, made]
    rfl
  have extracted : Model.extract (contextOf normal) source.text = .ok _ :=
    Model.extract_eq_ok_iff.2 ⟨(split_titles made noRaw).1, rfl⟩
  rw [docs, given]
  change ∃ d, (Compiler.builtin.apply normal >>= _) = Except.ok d
  rw [compiled]
  change ∃ d, (Model.extract (contextOf normal) source.text >>= _) = Except.ok d
  rw [extracted]
  exact ⟨_, rfl⟩

include given made in
/-- Without raw texts, a result is closed exactly if every id that it mentions is what is read of a
declaration. -/
theorem closed_iff_isReadAs
    (noRaw : ∀ text, ¬ Compile.IsRawText (Compile.wholeJob normal.graph normal.definitions) text)
    (models : d.models = (Model.ofDefinitions (contextOf normal)
      ((Source.split source.text.toList).definitions.map (·.1))).1)
    (endpoints : d.endpoints = normal.endpoints) :
    d.Closed ↔ ∀ id, d.Mentions id → ∃ declaration ∈ source.declarations,
      IsReadAs declaration id := by
  rw [closed_iff_titles given models endpoints]
  refine forall_congr' fun id => forall_congr' fun mentions => (split_titles made noRaw).2 id ?_
  obtain ⟨entry, isEntry, rfl⟩ := exists_name_of_mentions given models endpoints mentions
  exact ((consistent_naming given).isName entry isEntry).lower_ne_empty

include given made in
/-- A name without a dollar sign is what is read of its declaration, if that is no constant
enumeration. -/
theorem exists_isReadAs {entry : Nat × String} (member : entry ∈ normal.naming.names)
    (plain : '$' ∉ entry.2.toList)
    (noEnum : ∀ declaration ∈ source.declarations, ∀ members,
      declaration.body ≠ .constEnum members) :
    ∃ declaration ∈ source.declarations, IsReadAs declaration (lower entry.2) := by
  obtain ⟨declaration, isDeclared, same⟩ := Compile.exists_declaration_of_name given made member
  refine ⟨declaration, isDeclared, noEnum declaration isDeclared, ?_⟩
  have isName := (consistent_naming given).isName entry member
  have whole : Source.leadingWord entry.2 = entry.2.toList := by
    refine List.takeWhile_eq_self_iff.2 fun c inName => ?_
    rw [Source.isWord_of_isPart (isName.settled.part c inName), bne_iff_ne]
    exact fun dollar => plain (dollar ▸ inName)
  rw [same, whole, String.ofList_toList]

/-- A result of the built-in compiler is closed exactly if the reader finds a declaration under every
id that is mentioned. If no schema gives raw text for its type, what the reader finds is known: it
reads names up to the first dollar sign, and no constant enumerations. So without these a result is
closed. -/
theorem closed_iff (returned : docs g document .builtin = .ok d) :
    ∃ normal source, normalise g document = .ok normal ∧
      Compile.wholeSource normal.graph normal.definitions = .ok source ∧
      (d.Closed ↔ ∀ id, d.Mentions id →
        ∃ definition ∈ (Source.split source.text.toList).definitions.map (·.1),
          lower definition.title = id) ∧
      ((∀ text, ¬ Compile.IsRawText (Compile.wholeJob normal.graph normal.definitions) text) →
        (d.Closed ↔ ∀ id, d.Mentions id →
          ∃ declaration ∈ source.declarations, IsReadAs declaration id) ∧
        ((∀ entry ∈ normal.naming.names, '$' ∉ entry.2.toList) →
          (∀ declaration ∈ source.declarations, ∀ members,
            declaration.body ≠ .constEnum members) → d.Closed)) := by
  obtain ⟨normal, source, given, made, _, models, endpoints⟩ := exists_parts returned
  refine ⟨normal, source, given, made, closed_iff_titles given models endpoints, fun noRaw => ?_⟩
  have exact_ := closed_iff_isReadAs given made noRaw models endpoints
  refine ⟨exact_, fun plain noEnum => exact_.2 fun id mentions => ?_⟩
  obtain ⟨entry, isEntry, rfl⟩ := exists_name_of_mentions given models endpoints mentions
  exact exists_isReadAs given made isEntry (plain entry isEntry) noEnum

end

/-- A description with one schema, which an operation responds with. -/
def responding (title : String) : Graph :=
  ⟨#[.mapping [(.str "openapi", .str "3.0.0"), (.str "paths", .node 1), (.str "components", .node 8)],
    .mapping [(.str "/x", .node 2)],
    .mapping [(.str "get", .node 3)],
    .mapping [(.str "responses", .node 4)],
    .mapping [(.str "200", .node 5)],
    .mapping [(.str "content", .node 6)],
    .mapping [(.str "application/json", .node 7)],
    .mapping [(.str "schema", .node 10)],
    .mapping [(.str "schemas", .node 9)],
    .mapping [(.str title, .node 10)],
    .mapping [(.str "type", .str "object")]]⟩

/-- Whether a description has no raw texts and mentions an id in a response, names are without dollar
signs or not, and a declaration is read under this id or not. -/
def checkResponse (id : String) (plain : Bool) (normal : Normal) (source : Compile.Source) : Bool :=
  Compile.hasNoExtensions (Compile.wholeJob normal.graph normal.definitions).graph &&
    (normal.endpoints.any fun e => e.responseModels.any fun entry => entry.2 == id) &&
    ((normal.naming.names.all fun entry => !entry.2.toList.contains '$') == plain) &&
    ((source.declarations.any fun declaration =>
      lower (String.ofList (Source.leadingWord declaration.name)) == id) == plain)

theorem of_checkResponse {id : String} {plain : Bool} {normal : Normal} {source : Compile.Source}
    (checked : checkResponse id plain normal source = true) :
    Compile.NoExtensions (Compile.wholeJob normal.graph normal.definitions) ∧
      (∃ e ∈ normal.endpoints, ∃ entry ∈ e.responseModels, entry.2 = id) ∧
      ((∀ entry ∈ normal.naming.names, '$' ∉ entry.2.toList) ↔ plain = true) ∧
      ((∃ declaration ∈ source.declarations,
        lower (String.ofList (Source.leadingWord declaration.name)) = id) ↔ plain = true) := by
  simp only [checkResponse, Bool.and_eq_true, beq_iff_eq] at checked
  obtain ⟨⟨⟨keywords, mentioned⟩, names⟩, read⟩ := checked
  refine ⟨Compile.noExtensions_of_hasNoExtensions keywords, by simpa using mentioned, ?_, ?_⟩
  · rw [← names]
    simp
  · rw [← read]
    simp

theorem closed_plain_name : ∃ d, docs (responding "Pet") (.node 0) .builtin = .ok d ∧
    d.Closed ∧ d.Mentions "pet" := by
  have computed : inspect? (responding "Pet") (.node 0) (checkResponse "pet" true) = some true := by
    decide +kernel
  obtain ⟨normal, source, given, made, checked⟩ := exists_of_inspect? computed
  obtain ⟨plain, ⟨e, isEndpoint, mentioned⟩, names, _⟩ := of_checkResponse checked
  obtain ⟨d, returned⟩ := exists_docs given made plain.not_isRawText
  obtain ⟨other, text, givenToo, madeToo, _, spec⟩ := closed_iff returned
  rw [given] at givenToo
  cases givenToo
  rw [made] at madeToo
  cases madeToo
  have noEnum := Compile.not_constEnum_of_noExtensions made plain
  obtain ⟨third, _, givenAgain, _, _, _, endpoints⟩ := exists_parts returned
  rw [given] at givenAgain
  cases givenAgain
  refine ⟨d, returned, (spec plain.not_isRawText).2 (names.2 rfl) noEnum,
    Or.inl ⟨e, ?_, Or.inr mentioned⟩⟩
  rw [endpoints]
  exact isEndpoint

/-- The model of a schema with a dollar sign in its name is not under the id that is mentioned. -/
theorem not_closed_dollar_name : ∃ d, docs (responding "A$B") (.node 0) .builtin = .ok d ∧
    ¬ d.Closed := by
  have computed : inspect? (responding "A$B") (.node 0) (checkResponse "a$b" false) = some true := by
    decide +kernel
  obtain ⟨normal, source, given, made, checked⟩ := exists_of_inspect? computed
  obtain ⟨plain, ⟨e, isEndpoint, mentioned⟩, _, read⟩ := of_checkResponse checked
  obtain ⟨d, returned⟩ := exists_docs given made plain.not_isRawText
  obtain ⟨other, text, givenToo, madeToo, _, models, endpoints⟩ := exists_parts returned
  rw [given] at givenToo
  cases givenToo
  rw [made] at madeToo
  cases madeToo
  refine ⟨d, returned, fun closed => ?_⟩
  obtain ⟨declaration, isDeclared, _, same⟩ := (closed_iff_isReadAs given made plain.not_isRawText
    models endpoints).1 closed "a$b" (Or.inl ⟨e, by rw [endpoints]; exact isEndpoint,
      Or.inr mentioned⟩)
  exact absurd (read.1 ⟨declaration, isDeclared, same⟩) (by decide)

end Api

end Typewright
