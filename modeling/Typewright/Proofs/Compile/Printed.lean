import Typewright.Proofs.Compile.Declared
import Typewright.Proofs.TypeScript.Declarations

/-!
# What is printed

Every value that a compilation takes for a schema is considered by it (`Compile.Considered`): the
root, the definitions if they are declared anyhow, and what is asked for on the way. If none of these
gives a text for its type (`Compile.NoTypeTexts`), every declaration of the source is tame
(`Compile.isTame_of_source`), whatever the options are: what it is made of besides its own words are
names, quoted texts and the lines of descriptions.

Main statement: the reader of braces, started behind the name of an interface, finds exactly the
body of it (`Compile.bracePair?_interface`).
-/

namespace Typewright

/-- The text of an interface up to the end of its name. -/
def Declaration.uptoName (d : Declaration) : String :=
  d.comment.text "" ++ "export interface " ++ d.name

theorem Declaration.text_of_interface {d : Declaration} {type : TypeExpr}
    (shape : d.body = .interface type) : d.text = d.uptoName ++ " " ++ type.text 0 := by
  change d.comment.text "" ++ bareText d.name d.body = _
  simp only [shape, bareText_interface, uptoName, String.append_assoc]

namespace Compile

/-! ## Names -/

theorem isName_defaultTitle : Naming.IsName "Interface" := by
  refine ⟨Identifier.pass_eq_self_iff.1 ?_, by decide⟩
  decide +kernel

theorem isName_of_titleName {job : Job} {entries : Entries} {standIn title : String}
    (asked : job.titleName entries standIn = .ok title) : Naming.IsName title := by
  have named : ∀ text, Naming.IsName (if Identifier.ofText text = "" then "Interface"
      else Identifier.ofText text) := by
    intro text
    split
    · exact isName_defaultTitle
    · next inhabited => exact ⟨Identifier.settled_ofText text, inhabited⟩
  unfold Job.titleName at asked
  dsimp only at asked
  split at asked
  · injection asked with same
    rw [← same]
    exact named _
  · split at asked
    · cases asked
    · injection asked with same
      rw [← same]
      exact named _

/-- The first free form of a name is a name. -/
theorem isName_freeName (draft : Draft) {title : String} (isName : Naming.IsName title) :
    Naming.IsName (draft.freeName title) := by
  obtain ⟨n, found, _⟩ := Naming.firstFree_spec draft.isTaken id (draft.names.map (·.2)) title
    (fun n taken => by simpa [Draft.isTaken] using taken)
    (fun m n same => Naming.withSuffix_injective title same)
  rw [List.length_map] at found
  rw [Draft.freeName, found]
  exact isName.withSuffix n

/-! ## What is considered -/

/-- A value that a compilation takes for a schema, from the root or from the definitions. -/
inductive Considered (job : Job) : Value → Prop
  | root : Considered job (.node job.root)
  | definition {entries definitions : Entries} {v : Value}
      (anyhow : job.options.declareUnreachable = true)
      (found : job.graph.get? job.root = some (.mapping entries))
      (given : entriesUnder job.graph entries "definitions" = .ok definitions)
      (member : v ∈ definitions.map (·.2)) : Considered job v
  | asked {schema : Nat} {entries : Entries} {v : Value}
      (considered : Considered job (.node schema))
      (found : job.graph.get? schema = some (.mapping entries))
      (asked : Asked job.graph entries v) : Considered job v
  | target {v : Value} {target : Value × Bool} (considered : Considered job v)
      (given : follow job.graph (.node job.root) v = .ok target) : Considered job target.1

/-- No schema that is considered gives a text for its type. -/
def NoTypeTexts (job : Job) : Prop :=
  ∀ schema entries, Considered job (.node schema) →
    job.graph.get? schema = some (.mapping entries) → entries.has "tsType" = false

/-- Without the definitions, what is considered is visited. -/
theorem Considered.visited {job : Job} {v : Value} (considered : Considered job v)
    (reachedOnly : job.options.declareUnreachable = false) : Visited job v := by
  induction considered with
  | root => exact .root
  | definition anyhow =>
    rw [reachedOnly] at anyhow
    cases anyhow
  | asked _ found asked ih => exact ih.of_asked found asked
  | target _ given ih => exact ih.target given

/-- Whether no mapping at all gives a text for a type. -/
def hasNoTypeTexts (g : Graph) : Bool :=
  g.nodes.toList.all fun
    | .mapping entries => !entries.has "tsType"
    | .sequence _ => true

theorem noTypeTexts_of_hasNoTypeTexts {job : Job} (checked : hasNoTypeTexts job.graph = true) :
    NoTypeTexts job := by
  intro schema entries _ found
  simpa using Graph.of_all_nodes checked found

/-! ## Printable drafts -/

/-- A draft of names, descriptions and types without raw texts. -/
structure IsPrintable (draft : Draft) : Prop where
  names : ∀ entry ∈ draft.names, Naming.IsName entry.2
  described : ∀ body ∈ draft.bodies, body.2.1.IsDescription
  bodies : ∀ body ∈ draft.bodies, body.2.2.Built (fun _ => False) Naming.IsName

/-- A compilation without raw texts agrees to keep its draft printable. -/
def printing : Contract where
  grows before after := before.names <+: after.names ∧ (IsPrintable before → IsPrintable after)
  isRaw := fun _ => False
  fault := fun _ => True
  refl _ := ⟨List.prefix_rfl, id⟩
  trans first second := ⟨first.1.trans second.1, second.2 ∘ first.2⟩
  names grows := grows.1
  warned _ _ := ⟨List.prefix_rfl, fun printable =>
    ⟨printable.names, printable.described, printable.bodies⟩⟩
  malformed _ _ := trivial

namespace IsPrintable

theorem empty : IsPrintable {} :=
  ⟨by simp, by simp, by simp⟩

variable {job : Job} {draft : Draft}

theorem give {title : String} (printable : IsPrintable draft) (schema : Nat)
    (isName : Naming.IsName title) : IsPrintable (draft.give schema title) := by
  refine ⟨fun entry member => ?_, printable.described, printable.bodies⟩
  rcases List.mem_append.1 member with old | new
  · exact printable.names entry old
  · rw [List.mem_singleton.1 new]
    exact isName_freeName draft isName

theorem finish {comment : Comment} {body : DeclarationBody} (printable : IsPrintable draft)
    (schema : Nat) (described : comment.IsDescription)
    (built : body.Built (fun _ => False) Naming.IsName) :
    IsPrintable (draft.finish schema comment body) := by
  refine ⟨printable.names, fun one member => ?_, fun one member => ?_⟩
  · rcases List.mem_append.1 member with old | new
    · exact printable.described one old
    · rw [List.mem_singleton.1 new]
      exact described
  · rcases List.mem_append.1 member with old | new
    · exact printable.bodies one old
    · rw [List.mem_singleton.1 new]
      exact built

/-- Composed of names of a printable draft, a type is built of names. -/
theorem built {t : TypeExpr} (printable : IsPrintable draft)
    (composed : Composed (fun _ => False) Anything draft t) :
    t.Built (fun _ => False) Naming.IsName :=
  TypeExpr.Built.mono composed (fun _ given => given) fun _ ⟨schema, _, given⟩ =>
    printable.names (schema, _) given

theorem builtBody {entries : Entries} {body : DeclarationBody} (printable : IsPrintable draft)
    (composed : ComposedBody (fun _ => False) Anything draft job entries body) :
    body.Built (fun _ => False) Naming.IsName := by
  cases composed with
  | interface composed => exact .interface (printable.built composed)
  | aliased composed => exact .aliased (printable.built composed)
  | constEnum listed given spelled =>
    refine .constEnum (fun m member => ?_) fun m member => ?_
    · obtain ⟨pair, _, rfl⟩ := List.mem_map.1 member
      exact (Identifier.settled_ofText _).part
    · obtain ⟨pair, _, rfl⟩ := List.mem_map.1 member
      exact printable.built (composed_literal _)

/-- The declarations of a printable draft are tame. -/
theorem isTame {d : Declaration} (printable : IsPrintable draft)
    (member : d ∈ draft.declarations) : d.IsTame := by
  obtain ⟨isNamed, isBody⟩ := exists_of_mem_declarations member
  exact ⟨printable.described _ isBody, printable.names _ isNamed, printable.bodies _ isBody⟩

end IsPrintable

section

variable {job : Job}

theorem declare_prints {inner : Inner} {schema : Nat} {entries : Entries}
    (prints : ∀ around isNamed v d, Considered job v →
      printing.Gives Anything d (inner around isNamed v))
    (around : List Nat) (standIn : String) (draft : Draft)
    (considered : Considered job (.node schema))
    (found : job.graph.get? schema = some (.mapping entries)) :
    Ends draft (job.declare inner around standIn schema entries) (fun name after =>
      printing.grows draft after ∧ after.nameOf? schema = some name) fun _ => True := by
  have asks : ∀ d, printing.Asks Anything job inner around entries d :=
    fun d v asked other _ => prints around true v other (considered.asked found asked)
  refine printing.declare (fun title _ asked _ => ?_) fun title _ asked => ?_
  · exact ⟨List.prefix_append _ _,
      fun printable => printable.give schema (isName_of_titleName asked)⟩
  · refine (Contract.body (asks _)
      fun d _ => prints around false (.node schema) d considered).mono ?_
    rintro body after ⟨⟨names, keeps⟩, composed⟩
    refine ⟨names, (List.prefix_append _ _).trans names, fun printable => ?_⟩
    have later := keeps (printable.give schema (isName_of_titleName asked))
    exact later.finish schema (isDescription_commentOf _ _) (later.builtBody composed)

variable (plain : NoTypeTexts job)
include plain

/-- The type of a considered value is printable, up to any depth. -/
theorem expression_prints (depth : Nat) (around : List Nat) (isNamed : Bool) (v : Value)
    (draft : Draft) (considered : Considered job v) :
    printing.Gives Anything draft (job.expression depth around isNamed v) := by
  induction depth generalizing around isNamed v draft with
  | zero => exact Ends.of_throw trivial
  | succ depth ih =>
    refine printing.step (fun _ _ => trivial)
      (fun schema entries _ _ followed found _ _ => ⟨trivial, declare_prints
        (fun around isNamed v d => ih around isNamed v d) around "" draft
        (considered.target followed) found⟩)
      fun schema entries _ followed found _ _ => ?_
    have here : Considered job (.node schema) := considered.target followed
    have asks : printing.Asks Anything job (job.expression depth) (schema :: around) entries
        draft := fun w asked d _ => ih (schema :: around) true w d (here.asked found asked)
    refine Contract.written asks fun w held => ?_
    have none := plain schema entries here found
    rw [Entries.has, held] at none
    cases none

theorem declareDefinitions_prints {entries : Entries} (draft : Draft)
    (anyhow : job.options.declareUnreachable = true)
    (found : job.graph.get? job.root = some (.mapping entries)) :
    Ends draft (job.declareDefinitions entries) (fun _ after => printing.grows draft after)
      fun _ => True := by
  unfold Job.declareDefinitions
  refine Ends.of_bind (Ends.of_lift (fun definitions given => ?_) fun _ _ => trivial)
  refine Ends.of_bind ((Ends.of_forIn (printing.grows draft) definitions (printing.refl draft)
    ?_).mono fun _ after grows => Ends.of_pure grows)
  rintro ⟨key, v⟩ member d earlier
  dsimp only
  split
  · next schema inside read =>
    have considered : Considered job (.node schema) :=
      .definition anyhow found given (List.mem_map_of_mem member)
    have declared := declare_prints (expression_prints plain job.depth) [] "Definition" d
      considered (Graph.get?_of_entries? read)
    exact Ends.of_bind (declared.mono fun name after facts =>
      Ends.of_pure (printing.trans earlier facts.1))
  · exact Ends.of_pure earlier

/-- What a whole compilation does. -/
theorem run_prints : Runs {} (Job.run job) fun _ after => IsPrintable after := by
  unfold Job.run
  split
  · next entries read =>
    split
    · exact Runs.of_throw
    · refine Runs.of_bind ((declare_prints (expression_prints plain job.depth) [] "" {} .root
        (Graph.get?_of_entries? read)).runs.mono ?_)
      rintro _ between ⟨grows, _⟩
      split
      · next anyhow =>
        refine (declareDefinitions_prints plain between anyhow
          (Graph.get?_of_entries? read)).runs.mono ?_
        exact fun _ after later => later.2 (grows.2 .empty)
      · exact Runs.of_pure (grows.2 .empty)
  · exact Runs.of_throw

end

/-! ## Sources -/

/-- The interfaces of a source, with their types. -/
def Source.interfaces (source : Source) : List (Declaration × TypeExpr) :=
  source.declarations.filterMap fun d =>
    match d.body with
    | .interface type => some (d, type)
    | _ => none

theorem mem_interfaces {source : Source} {d : Declaration} {type : TypeExpr} :
    (d, type) ∈ source.interfaces ↔ d ∈ source.declarations ∧ d.body = .interface type := by
  rw [Source.interfaces, List.mem_filterMap]
  constructor
  · rintro ⟨other, member, made⟩
    split at made
    · next inner shape =>
      cases made
      exact ⟨member, shape⟩
    · cases made
  · rintro ⟨member, shape⟩
    exact ⟨d, member, by rw [shape]⟩

section

variable {g : Graph} {root : Nat} {options : Options} {source : Source}
variable (plain : NoTypeTexts ⟨g, root, options⟩)
variable (made : Compile.source g (.node root) options = .ok source)
include plain made

/-- Without raw texts, whatever is declared is tame. -/
theorem isTame_of_source : ∀ d ∈ source.declarations, d.IsTame := by
  obtain ⟨_, draft, same, ran, declared, _⟩ := exists_run_of_source made
  cases same
  rw [declared]
  exact fun d member => (run_prints plain () draft ran).isTame member

/-- Whatever stands before and behind an interface: read from the end of its name on, its first
opening brace and the brace that closes it are the first and the last character of its body. -/
theorem bracePair?_interface {d : Declaration} (member : d ∈ source.declarations) {type : TypeExpr}
    (shape : d.body = .interface type) (before after : List Char) :
    d.text = d.uptoName ++ " " ++ type.text 0 ∧
      Source.bracePair? (before ++ d.text.toList ++ after) (before.length + d.uptoName.length) =
        some (before.length + d.uptoName.length + 1, before.length + d.text.length - 1) := by
  have tame := isTame_of_source plain made d member
  have built := tame.body
  rw [shape] at built
  cases built with
  | interface built =>
    obtain ⟨inner, isBraced, crosses, _⟩ :=
      TypeExpr.isBraced_text (fun _ => id) (fun _ isName => isName.settled.part) built 0
    generalize TypeExpr.object _ _ = type at shape isBraced
    have text := Declaration.text_of_interface shape
    have space : " ".toList = [' '] := rfl
    have whole : before ++ d.text.toList ++ after =
        (before ++ d.uptoName.toList) ++ ([' '] ++ '\x7b' :: inner ++ '\x7d' :: after) := by
      rw [text]
      simp [isBraced, space]
    have start : before.length + d.uptoName.length = (before ++ d.uptoName.toList).length := by
      rw [List.length_append, String.length_toList]
    have last : before.length + d.text.length - 1 =
        (before ++ d.uptoName.toList).length + [' '].length + inner.length + 1 := by
      rw [← String.length_toList, text]
      simp [isBraced, space]
      omega
    refine ⟨text, ?_⟩
    rw [whole, last, start, Source.bracePair?, List.drop_left,
      Source.bracePairFrom?_braced (by simp; decide) crosses]
    rfl

end

/-- A schema whose texts hold braces, quotes, backslashes and marks of comments: its description, the
names of its properties, and what they may be. -/
def hostile : Graph :=
  ⟨#[.mapping [(.str "title", .str "A"), (.str "type", .str "object"),
      (.str "description", .str "\x7d */ /* // \" '"), (.str "properties", .node 1)],
    .mapping [(.str "\x7d\"\x7b", .node 2), (.str "it's", .node 3)],
    .mapping [(.str "type", .str "string"), (.str "description", .str "\x7b")],
    .mapping [(.str "enum", .node 4)],
    .sequence [.str "\x7d", .str "\\\"", .str "// /*"]]⟩

theorem bracePair?_hostile_interface : ∃ source d type,
    Compile.source hostile (.node 0) {} = .ok source ∧ NoTypeTexts ⟨hostile, 0, {}⟩ ∧
    d ∈ source.declarations ∧ d.body = .interface type ∧
    Source.bracePair? ("\x7d\n".toList ++ d.text.toList ++ "\n\x7b\x7d".toList)
        (2 + d.uptoName.length) =
      some (2 + d.uptoName.length + 1, 2 + d.text.length - 1) := by
  obtain ⟨source, made, one⟩ : ∃ source, Compile.source hostile (.node 0) {} = .ok source ∧
      source.interfaces.length = 1 := exists_of_toOption_map (by decide +kernel)
  have plain : NoTypeTexts ⟨hostile, 0, {}⟩ := noTypeTexts_of_hasNoTypeTexts (by decide)
  obtain ⟨⟨d, type⟩, whole⟩ := List.length_eq_one_iff.1 one
  obtain ⟨member, shape⟩ : d ∈ source.declarations ∧ d.body = .interface type := by
    rw [← mem_interfaces, whole]
    exact List.mem_singleton_self _
  exact ⟨source, d, type, made, plain, member, shape,
    (bracePair?_interface plain made member shape "\x7d\n".toList "\n\x7b\x7d".toList).2⟩

end Compile

end Typewright
