import Typewright.Proofs.Compile.Ends
import Typewright.Proofs.Schema.Dependencies
import Typewright.Proofs.TypeScript.Built

/-!
# The parts of a schema

Writing out a schema takes its structural children for schemas, and besides them what it holds under
two keywords that the structural walk passes over (`Schema.furtherChildren`). Whatever the function
for the schemas inside keeps for those (`Compile.Contract`), the functions for the parts of a schema
keep (`Contract.written`, `Contract.body`), and so does the declaration of a schema
(`Contract.declare`) and a step from a value (`Contract.step`).
-/

namespace Typewright

namespace Schema

/-- What a schema holds under `patternProperties`. -/
def patternChildren (g : Graph) (entries : Entries) : List Value :=
  (((entries.get? "patternProperties").bind g.entries?).getD []).map (·.2)

/-- What a schema holds under `additionalItems`, if its items are a list. -/
def additionalItemChildren (g : Graph) (entries : Entries) : List Value :=
  if ((entries.get? "items").bind g.items?).isSome then (entries.get? "additionalItems").toList
  else []

/-- What a schema holds that is taken for a schema although it is no structural child. -/
def furtherChildren (g : Graph) (entries : Entries) : List Value :=
  patternChildren g entries ++ additionalItemChildren g entries

/-- The keywords that hold these: patterns, and the schema for what is behind a list of items. -/
theorem mem_furtherChildren_iff {g : Graph} {entries : Entries} {v : Value} :
    v ∈ furtherChildren g entries ↔
      (∃ patterns, (entries.get? "patternProperties").bind g.entries? = some patterns ∧
        v ∈ patterns.map (·.2)) ∨
      ((∃ items, (entries.get? "items").bind g.items? = some items) ∧
        entries.get? "additionalItems" = some v) := by
  have pattern : v ∈ patternChildren g entries ↔
      ∃ patterns, (entries.get? "patternProperties").bind g.entries? = some patterns ∧
        v ∈ patterns.map (·.2) := by
    rw [patternChildren]
    cases (entries.get? "patternProperties").bind g.entries? <;> simp
  have additional : v ∈ additionalItemChildren g entries ↔
      (∃ items, (entries.get? "items").bind g.items? = some items) ∧
        entries.get? "additionalItems" = some v := by
    rw [additionalItemChildren]
    cases (entries.get? "items").bind g.items? <;> simp
  rw [furtherChildren, List.mem_append, pattern, additional]

end Schema

namespace Compile

/-- A value that is taken for a schema when one with the given entries is written out. -/
def Asked (g : Graph) (entries : Entries) (v : Value) : Prop :=
  v ∈ Schema.children g entries ∨ v ∈ Schema.furtherChildren g entries ∨ ∃ s, v = .scalar s

section

variable {g : Graph} {entries : Entries}

/-- Entries under a keyword that have a value are those of a mapping. -/
theorem mapping_of_mem_entriesUnder {key : String} {inside : Entries} {v : Value}
    (given : entriesUnder g entries key = .ok inside) (member : v ∈ inside.map (·.2)) :
    (entries.get? key).bind g.entries? = some inside := by
  unfold entriesUnder at given
  split at given
  · cases given
    cases member
  · next holder held =>
    rw [held]
    split at given
    · next read =>
      cases given
      exact read
    · split at given <;> cases given
      cases member

theorem asked_of_properties {declared : Entries} {v : Value}
    (given : entriesUnder g entries "properties" = .ok declared)
    (member : v ∈ declared.map (·.2)) : Asked g entries v :=
  Or.inl (Schema.mem_children_iff.2
    (Or.inl ⟨declared, mapping_of_mem_entriesUnder given member, member⟩))

theorem asked_of_patternProperties {patterns : Entries} {v : Value}
    (given : entriesUnder g entries "patternProperties" = .ok patterns)
    (member : v ∈ patterns.map (·.2)) : Asked g entries v :=
  Or.inr (Or.inl (Schema.mem_furtherChildren_iff.2
    (Or.inl ⟨patterns, mapping_of_mem_entriesUnder given member, member⟩)))

theorem asked_of_additionalProperties {v : Value}
    (held : entries.get? "additionalProperties" = some v) (isMapping : g.isMapping v = true) :
    Asked g entries v :=
  Or.inl (Schema.mem_children_iff.2 (Or.inr (Or.inr (Or.inr (Or.inl ⟨held, isMapping⟩)))))

theorem asked_of_members {job : Job} {key : String} {members : List Value} {v : Value}
    (composes : key ∈ Schema.compositionKeys)
    (given : job.listUnder? entries key = some members) (member : v ∈ members) :
    Asked job.graph entries v :=
  Or.inl (Schema.mem_children_iff.2
    (Or.inr (Or.inr (Or.inr (Or.inr ⟨key, composes, members, given, member⟩)))))

/-- The one schema for all items of an array, if there is one. -/
theorem asked_of_item (single : g.items? ((entries.get? "items").getD .null) = none) :
    Asked g entries ((entries.get? "items").getD .null) := by
  cases held : entries.get? "items" with
  | none => exact Or.inr (Or.inr ⟨_, rfl⟩)
  | some v =>
    rw [held, Option.getD_some] at single
    exact Or.inl (Schema.mem_children_iff.2 (Or.inr (Or.inr (Or.inl ⟨held, single⟩))))

section

variable {members : List Value} (several : g.items? ((entries.get? "items").getD .null) =
  some members)
include several

theorem items_of_several : (entries.get? "items").bind g.items? = some members := by
  cases held : entries.get? "items" with
  | none =>
    rw [held] at several
    cases several
  | some v =>
    rw [held] at several
    exact several

theorem asked_of_items {v : Value} (member : v ∈ members) : Asked g entries v :=
  Or.inl (Schema.mem_children_iff.2
    (Or.inr (Or.inl ⟨members, items_of_several several, member⟩)))

theorem asked_of_additionalItems :
    Asked g entries ((entries.get? "additionalItems").getD (.bool true)) := by
  cases additional : entries.get? "additionalItems" with
  | none => exact Or.inr (Or.inr ⟨_, rfl⟩)
  | some v =>
    exact Or.inr (Or.inl (Schema.mem_furtherChildren_iff.2
      (Or.inr ⟨⟨members, items_of_several several⟩, additional⟩)))

end

end

/-- A title that is a text. -/
theorem bind_str?_eq_some_iff {v : Option Value} {text : String} :
    v.bind Value.str? = some text ↔ v = some (.str text) := by
  rcases v with _ | s | id
  · simp
  · cases s <;> simp [Value.str?, Value.str]
  · simp [Value.str?, Value.str]

theorem isSome_bind_str?_eq_false_iff {v : Option Value} :
    (v.bind Value.str?).isSome = false ↔ ∀ text, v ≠ some (.str text) := by
  rw [Option.isSome_eq_false_iff, Option.isNone_iff_eq_none, Option.eq_none_iff_forall_ne_some]
  exact forall_congr' fun text => not_congr bind_str?_eq_some_iff

/-! ## Names in a draft -/

namespace Draft

/-- The draft after a schema has been given a name. -/
def give (draft : Draft) (schema : Nat) (title : String) : Draft :=
  { draft with names := draft.names ++ [(schema, draft.freeName title)] }

/-- The draft after the body of a schema has been finished. -/
def finish (draft : Draft) (schema : Nat) (comment : Comment) (body : DeclarationBody) : Draft :=
  { draft with bodies := draft.bodies ++ [(schema, comment, body)] }

end Draft

theorem nameOf?_eq_some {draft : Draft} {schema : Nat} {name : String}
    (found : draft.nameOf? schema = some name) : (schema, name) ∈ draft.names := by
  rw [Draft.nameOf?, Option.map_eq_some_iff] at found
  obtain ⟨entry, first, rfl⟩ := found
  have same : entry.1 = schema := by simpa using List.find?_some first
  rw [← same]
  exact List.mem_of_find?_eq_some first

theorem nameOf?_eq_none {draft : Draft} {schema : Nat} (missing : draft.nameOf? schema = none) :
    schema ∉ draft.names.map (·.1) := by
  intro member
  obtain ⟨entry, present, rfl⟩ := List.mem_map.1 member
  rw [Draft.nameOf?, Option.map_eq_none_iff, List.find?_eq_none] at missing
  exact missing entry present (by simp)

theorem nameOf?_give {draft : Draft} {schema : Nat} (title : String)
    (missing : draft.nameOf? schema = none) :
    (draft.give schema title).nameOf? schema = some (draft.freeName title) := by
  rw [Draft.nameOf?, Option.map_eq_none_iff] at missing
  rw [Draft.give, Draft.nameOf?, List.find?_append, missing]
  simp

/-- A name stays with its schema. -/
theorem nameOf?_of_prefix {before after : Draft} (names : before.names <+: after.names)
    {schema : Nat} {name : String} (found : before.nameOf? schema = some name) :
    after.nameOf? schema = some name := by
  obtain ⟨more, whole⟩ := names
  rw [Draft.nameOf?, Option.map_eq_some_iff] at found
  obtain ⟨entry, first, rfl⟩ := found
  rw [Draft.nameOf?, ← whole, List.find?_append, first]
  rfl

/-! ## Contracts -/

/-- A type composed of given raw texts and of the names that a draft has for some schemas. -/
def Composed (isRaw : String → Prop) (named : Nat → Prop) (draft : Draft) (t : TypeExpr) : Prop :=
  t.Built isRaw fun text => ∃ schema, named schema ∧ (schema, text) ∈ draft.names

/-- What steps of a compilation agree to: how they change a draft, which raw texts they take over,
and how they fail. -/
structure Contract where
  grows : Draft → Draft → Prop
  isRaw : String → Prop
  fault : Error → Prop
  refl : ∀ draft, grows draft draft
  trans : ∀ {a b c}, grows a b → grows b c → grows a c
  names : ∀ {a b}, grows a b → a.names <+: b.names
  warned : ∀ draft warnings, grows draft { draft with warnings }
  malformed : ∀ e, IsMalformed e → fault e

section

variable {isRaw : String → Prop} {named : Nat → Prop} {before after : Draft}

theorem Composed.mono {t : TypeExpr} (composed : Composed isRaw named before t)
    (names : before.names <+: after.names) : Composed isRaw named after t :=
  TypeExpr.Built.mono composed (fun _ given => given) fun _ ⟨schema, may, given⟩ =>
    ⟨schema, may, names.subset given⟩

theorem Composed.weaken {wider : Nat → Prop} {t : TypeExpr}
    (composed : Composed isRaw named before t) (imp : ∀ schema, named schema → wider schema) :
    Composed isRaw wider before t :=
  TypeExpr.Built.mono composed (fun _ given => given) fun _ ⟨schema, may, given⟩ =>
    ⟨schema, imp schema may, given⟩

theorem composed_boundedArray {t : TypeExpr} {least most : Option Int}
    (composed : Composed isRaw named before t) :
    Composed isRaw named before (boundedArray t least most) := by
  unfold boundedArray
  simp only
  split
  · exact .sized composed
  · split
    · exact .array composed
    · refine .tuple (fun u member => ?_) fun u member => ?_
      · rw [List.eq_of_mem_replicate member]
        exact composed
      · rw [List.mem_singleton.1 member]
        exact composed

theorem composed_literal (v : Value) : Composed isRaw named before (literal v) := by
  cases v with
  | scalar s => exact .literal s
  | node id => exact .unknown

end

theorem isDescription_commentOf (g : Graph) (entries : Entries) :
    (commentOf g entries).IsDescription :=
  ⟨_, _, rfl⟩

theorem isDescription_propertyHead {job : Job} {required : List Scalar} {key : Scalar} {v : Value}
    {head : PropertyHead} (made : job.propertyHead required key v = .ok head) :
    head.comment.IsDescription := by
  unfold Job.propertyHead at made
  split at made
  · cases made
    simp only
    split
    · split
      · exact Comment.isDescription_none
      · exact isDescription_commentOf _ _
    · exact Comment.isDescription_none
  · cases made

/-- What the body of a declaration may be. -/
inductive ComposedBody (isRaw : String → Prop) (named : Nat → Prop) (draft : Draft) (job : Job)
    (entries : Entries) : DeclarationBody → Prop
  | interface {properties : List (PropertyHead × TypeExpr)} {index : List TypeExpr}
      (composed : Composed isRaw named draft (.object properties index)) :
      ComposedBody isRaw named draft job entries (.interface (.object properties index))
  | constEnum {names values : List Value} {choices : Value}
      (listed : job.listUnder? entries "tsEnumNames" = some names)
      (given : entries.get? "enum" = some choices)
      (spelled : elements job.graph choices = .ok values) :
      ComposedBody isRaw named draft job entries (.constEnum (job.enumMembers names values))
  | aliased {t : TypeExpr} (composed : Composed isRaw named draft t) :
      ComposedBody isRaw named draft job entries (.alias t)

namespace Contract

/-- A step gives a type as agreed, composed of the names of some schemas. -/
def Gives (contract : Contract) (named : Nat → Prop) (draft : Draft) (step : Compiling TypeExpr) :
    Prop :=
  Ends draft step (fun t after => contract.grows draft after ∧
    Composed contract.isRaw named after t) contract.fault

/-- The function for the schemas inside gives types as agreed for what is asked of it from a draft
on. -/
def Asks (contract : Contract) (named : Nat → Prop) (job : Job) (inner : Inner) (around : List Nat)
    (entries : Entries) (draft : Draft) : Prop :=
  ∀ v, Asked job.graph entries v → ∀ d, contract.grows draft d →
    contract.Gives named d (inner around true v)

variable {contract : Contract} {named : Nat → Prop} {job : Job} {inner : Inner}
variable {around : List Nat} {entries : Entries} {draft between : Draft}

theorem Asks.later (asks : contract.Asks named job inner around entries draft)
    (grows : contract.grows draft between) :
    contract.Asks named job inner around entries between :=
  fun v asked d later => asks v asked d (contract.trans grows later)

theorem gives_of_pure {t : TypeExpr} (composed : Composed contract.isRaw named draft t) :
    contract.Gives named draft (pure t) :=
  Ends.of_pure ⟨contract.refl draft, composed⟩

/-- A type that is given unless an integer in it has too many digits. -/
theorem gives_of_refuseLong {long : Bool} {t : TypeExpr}
    (composed : Composed contract.isRaw named draft t) :
    contract.Gives named draft (do
      Error.refuseLong long
      return t) :=
  Ends.of_bind (Ends.of_lift (fun _ _ => gives_of_pure composed)
    fun e failed => contract.malformed e (isMalformed_refuseLong failed))

/-- Types that are made one after the other. -/
theorem mapM {α : Type} {step : α → Compiling TypeExpr} {l : List α}
    (each : ∀ x ∈ l, ∀ d, contract.grows draft d → contract.Gives named d (step x)) :
    Ends draft (l.mapM step) (fun ts after => contract.grows draft after ∧
      ∀ t ∈ ts, Composed contract.isRaw named after t) contract.fault := by
  refine (Ends.of_mapM contract.grows (fun d _ t => Composed contract.isRaw named d t)
    contract.refl contract.trans (fun grows composed => composed.mono (contract.names grows)) step
    l each).mono ?_
  rintro ts after ⟨grows, all⟩
  refine ⟨grows, fun t member => ?_⟩
  obtain ⟨_, _, composed⟩ := exists_original_of_mem all member
  exact composed

section

variable (asks : contract.Asks named job inner around entries draft)
include asks

/-- The types of the schemas in a list. -/
theorem listed {members : List Value} (each : ∀ v ∈ members, Asked job.graph entries v) :
    Ends draft (members.mapM (inner around true)) (fun ts after => contract.grows draft after ∧
      ∀ t ∈ ts, Composed contract.isRaw named after t) contract.fault :=
  mapM fun v member d grows => asks v (each v member) d grows

theorem indexTypes : Ends draft (job.indexTypes inner around entries)
    (fun ts after => contract.grows draft after ∧
      ∀ t ∈ ts, Composed contract.isRaw named after t) contract.fault := by
  rw [Job.indexTypes]
  refine Ends.of_bind (Ends.of_lift (fun patterns given => ?_)
    fun e failed => contract.malformed e (isMalformed_entriesUnder failed))
  refine Ends.of_bind ((mapM fun entry member d grows => asks entry.2
    (asked_of_patternProperties given (List.mem_map_of_mem member)) d grows).mono ?_)
  rintro types between ⟨grows, composed⟩
  have finish : ∀ (ts : List TypeExpr) (d : Draft), contract.grows draft d →
      (∀ t ∈ ts, Composed contract.isRaw named d t) → Ends d (pure (if ts.isEmpty then []
        else if job.options.strictIndexSignatures then [TypeExpr.union ts, .undefined] else ts))
        (fun ts after => contract.grows draft after ∧
          ∀ t ∈ ts, Composed contract.isRaw named after t) contract.fault := by
    intro ts d growsAll composedAll
    refine Ends.of_pure ⟨growsAll, ?_⟩
    split
    · simp
    · split
      · intro t member
        simp only [List.mem_cons, List.not_mem_nil, or_false] at member
        rcases member with rfl | rfl
        · exact .union composedAll
        · exact .undefined
      · exact composedAll
  have unknown : ∀ t ∈ types ++ [.unknown], Composed contract.isRaw named between t := by
    intro t member
    rcases List.mem_append.1 member with old | new
    · exact composed t old
    · rw [List.mem_singleton.1 new]
      exact .unknown
  dsimp only
  split
  · exact Ends.of_bind (Ends.of_pure (finish _ between grows unknown))
  · exact Ends.of_bind (Ends.of_pure (finish _ between grows unknown))
  · next v _ held =>
    split
    · next isMapping =>
      refine Ends.of_bind ((asks v (asked_of_additionalProperties held isMapping) between
        grows).mono ?_)
      rintro t after ⟨growsLater, composedLater⟩
      refine Ends.of_bind (Ends.of_pure
        (finish _ after (contract.trans grows growsLater) fun u member => ?_))
      rcases List.mem_append.1 member with old | new
      · exact (composed u old).mono (contract.names growsLater)
      · rw [List.mem_singleton.1 new]
        exact composedLater
    · exact Ends.of_bind (Ends.of_pure (finish _ between grows composed))

/-- The object type of a schema. -/
theorem object : Ends draft (job.object inner around entries)
    (fun t after => contract.grows draft after ∧ Composed contract.isRaw named after t ∧
      ∃ properties index, t = .object properties index) contract.fault := by
  rw [Job.object]
  refine Ends.of_bind (Ends.of_lift (fun required _ => ?_)
    fun e failed => contract.malformed e (isMalformed_requiredKeys failed))
  refine Ends.of_bind (Ends.of_lift (fun declared given => ?_)
    fun e failed => contract.malformed e (isMalformed_entriesUnder failed))
  refine Ends.of_bind ((Ends.of_mapM contract.grows
    (fun d _ (property : PropertyHead × TypeExpr) =>
      property.1.comment.IsDescription ∧ Composed contract.isRaw named d property.2)
    contract.refl contract.trans
    (fun grows good => ⟨good.1, good.2.mono (contract.names grows)⟩) _ declared
    fun entry member d grows => ?_).mono ?_)
  · refine Ends.of_bind (Ends.of_lift (fun head made => ?_)
      fun e failed => contract.malformed e (isMalformed_propertyHead failed))
    have asked := asked_of_properties given (List.mem_map_of_mem member)
    refine Ends.of_bind ((asks entry.2 asked d grows).mono ?_)
    rintro t after ⟨growsLater, composed⟩
    exact Ends.of_pure ⟨growsLater, isDescription_propertyHead made, composed⟩
  · rintro properties between ⟨grows, all⟩
    refine Ends.of_bind ((indexTypes (asks.later grows)).mono ?_)
    rintro index after ⟨growsLater, composedIndex⟩
    refine Ends.of_pure ⟨contract.trans grows growsLater, .object (fun property member => ?_)
      (fun property member => ?_) composedIndex, _, _, rfl⟩
    · obtain ⟨_, _, described, _⟩ := exists_original_of_mem all member
      exact described
    · obtain ⟨_, _, _, composed⟩ := exists_original_of_mem all member
      exact composed.mono (contract.names growsLater)

theorem array : contract.Gives named draft (job.array inner around entries) := by
  rw [Gives, Job.array]
  simp only
  split
  · next members several =>
    refine Ends.of_bind ((listed asks fun v member => asked_of_items several member).mono ?_)
    rintro types between ⟨grows, composed⟩
    split
    · exact Ends.of_pure ⟨grows, .tuple composed (by simp)⟩
    · refine Ends.of_bind ((asks _ (asked_of_additionalItems several) between grows).mono ?_)
      rintro t after ⟨growsLater, composedLater⟩
      refine Ends.of_pure ⟨contract.trans grows growsLater,
        .tuple (fun u member => (composed u member).mono (contract.names growsLater))
          fun u member => ?_⟩
      rw [List.mem_singleton.1 member]
      exact composedLater
  · next single =>
    have finish : ∀ (t : TypeExpr) (d : Draft), contract.grows draft d →
        Composed contract.isRaw named d t →
        Ends d (if job.options.ignoreBounds then pure (.array t)
          else pure (boundedArray t (bound? (entries.get? "minItems"))
            (bound? (entries.get? "maxItems"))))
          (fun t after => contract.grows draft after ∧ Composed contract.isRaw named after t)
          contract.fault := by
      intro t d grows composed
      split
      · exact Ends.of_pure ⟨grows, .array composed⟩
      · exact Ends.of_pure ⟨grows, composed_boundedArray composed⟩
    split
    · exact Ends.of_bind (Ends.of_pure (finish _ draft (contract.refl draft) .unknown))
    · refine Ends.of_bind ((asks _ (asked_of_item single) draft (contract.refl draft)).mono ?_)
      rintro t after ⟨grows, composed⟩
      exact finish t after grows composed

theorem typed (type : Value) :
    contract.Gives named draft (job.typed inner around entries type) := by
  have objectGives : contract.Gives named draft (job.object inner around entries) :=
    (object asks).mono fun t after facts => ⟨facts.1, facts.2.1⟩
  have arrayGives := array asks
  unfold Job.typed
  split
  · exact Ends.of_throw (contract.malformed _ trivial)
  · split
    · exact gives_of_pure (.primitive _)
    · split
      · exact arrayGives
      · split
        · exact objectGives
        · split
          · exact arrayGives
          · exact gives_of_pure .unknown

/-- The type of a schema that is written out. -/
theorem written
    (raw : ∀ v, entries.get? "tsType" = some v → contract.isRaw (Display.value job.graph v)) :
    contract.Gives named draft (job.written inner around entries) := by
  have union : ∀ {members : List Value}, (∀ v ∈ members, Asked job.graph entries v) →
      contract.Gives named draft (members.mapM (inner around true) >>= fun ts =>
        pure (.union ts)) := by
    intro members each
    refine Ends.of_bind ((listed asks each).mono ?_)
    rintro ts after ⟨grows, composed⟩
    exact Ends.of_pure ⟨grows, .union composed⟩
  unfold Job.written
  split
  · next v held => exact gives_of_refuseLong (.raw (raw v held))
  split
  · exact gives_of_refuseLong (composed_literal _)
  split
  · refine gives_of_refuseLong (.union fun t member => ?_)
    obtain ⟨v, _, rfl⟩ := List.mem_map.1 member
    exact composed_literal v
  split
  · next members given =>
    have each : ∀ v ∈ members, Asked job.graph entries v :=
      fun v member => asked_of_members (by decide) given member
    refine Ends.of_bind ((listed asks each).mono ?_)
    rintro parts between ⟨grows, composed⟩
    split
    · refine Ends.of_bind ((object (asks.later grows)).mono ?_)
      rintro own after ⟨growsLater, composedOwn, isObject⟩
      refine Ends.of_bind (Ends.of_pure (Ends.of_pure ⟨contract.trans grows growsLater,
        .intersection (fun t member => (composed t member).mono (contract.names growsLater))
          (fun t member => ?_) fun t member => ?_⟩))
      · rw [List.mem_singleton.1 member]
        exact composedOwn
      · rw [List.mem_singleton.1 member]
        exact isObject
    · exact Ends.of_bind (Ends.of_pure (Ends.of_pure ⟨grows, .intersection composed (by simp) (by simp)⟩))
  split
  · next members given =>
    exact union fun v member => asked_of_members (by decide) given member
  split
  · next members given =>
    exact union fun v member => asked_of_members (by decide) given member
  simp only
  split
  · refine Ends.of_bind ((mapM fun word _ d grows => typed (asks.later grows) word).mono ?_)
    rintro ts after ⟨grows, composed⟩
    exact Ends.of_pure ⟨grows, .union composed⟩
  · exact typed asks _

/-- The body of the declaration of a schema. -/
theorem body {schema : Nat}
    (own : ∀ d, contract.grows draft d →
      contract.Gives named d (inner around false (.node schema))) :
    Ends draft (job.body inner around schema entries) (fun body after =>
      contract.grows draft after ∧
        ComposedBody contract.isRaw named after job entries body) contract.fault := by
  unfold Job.body
  split
  · refine Ends.of_bind ((object asks).mono ?_)
    rintro t after ⟨grows, composed, properties, index, rfl⟩
    exact Ends.of_pure ⟨grows, .interface composed⟩
  · split
    · next choices names _ given listed =>
      refine Ends.of_bind (Ends.of_lift (fun values spelled => ?_)
        fun e failed => contract.malformed e (isMalformed_elements failed))
      refine Ends.of_bind (Ends.of_lift (fun _ _ => ?_)
        fun e failed => contract.malformed e (isMalformed_refuseLong failed))
      exact Ends.of_pure ⟨contract.refl draft, .constEnum listed given spelled⟩
    · refine Ends.of_bind ((own draft (contract.refl draft)).mono ?_)
      rintro t after ⟨grows, composed⟩
      exact Ends.of_pure ⟨grows, .aliased composed⟩

end

/-! ### Declarations and values -/

/-- Declaring a schema, which has the name that is given afterwards. It is enough that a name
without a body is as agreed where none is asked for, and a name with the finished body elsewhere. -/
theorem declare (contract : Contract) {schema : Nat} {standIn : String}
    (bare : ∀ title, draft.nameOf? schema = none → job.titleName entries standIn = .ok title →
      ¬(schema = job.root ∨ job.options.declareReferenced = true) →
      contract.grows draft (draft.give schema title))
    (full : ∀ title, draft.nameOf? schema = none → job.titleName entries standIn = .ok title →
      Ends (draft.give schema title) (job.body inner around schema entries) (fun body after =>
        (draft.give schema title).names <+: after.names ∧ contract.grows draft
          (after.finish schema (commentOf job.graph entries) body)) contract.fault) :
    Ends draft (job.declare inner around standIn schema entries) (fun name after =>
      contract.grows draft after ∧ after.nameOf? schema = some name) contract.fault := by
  unfold Job.declare
  refine Ends.of_bind (Ends.of_get ?_)
  split
  · next name already => exact Ends.of_pure ⟨contract.refl draft, already⟩
  · next missing =>
    refine Ends.of_bind (Ends.of_get ?_)
    refine Ends.of_bind (Ends.of_lift (fun title asked => ?_)
      fun e failed => contract.malformed e (isMalformed_titleName failed))
    refine Ends.of_bind (Ends.of_modify ?_)
    have given := nameOf?_give title missing
    split
    · refine Ends.of_bind ((full title missing asked).mono ?_)
      rintro body after ⟨names, grows⟩
      exact Ends.of_bind (Ends.of_modify (Ends.of_pure ⟨grows, nameOf?_of_prefix names given⟩))
    · next undeclared => exact Ends.of_pure ⟨bare title missing asked undeclared, given⟩

/-- The type of a value that stands for a schema: a name if what it leads to has a title that is
asked for, and written out otherwise. -/
theorem step (contract : Contract) {v : Value} {isNamed : Bool}
    (follows : ∀ e, follow job.graph (.node job.root) v = .error e → contract.fault e)
    (declared : ∀ schema entries text hopped,
      follow job.graph (.node job.root) v = .ok (.node schema, hopped) →
      job.graph.get? schema = some (.mapping entries) →
      entries.get? "title" = some (.str text) → (isNamed || hopped) = true →
      named schema ∧ Ends draft (job.declare inner around "" schema entries) (fun name after =>
        contract.grows draft after ∧ after.nameOf? schema = some name) contract.fault)
    (written : ∀ schema entries hopped,
      follow job.graph (.node job.root) v = .ok (.node schema, hopped) →
      job.graph.get? schema = some (.mapping entries) → schema ∉ around →
      ((isNamed || hopped) = true → ∀ text, entries.get? "title" ≠ some (.str text)) →
      contract.Gives named draft (job.written inner (schema :: around) entries)) :
    contract.Gives named draft (job.step inner around isNamed v) := by
  unfold Job.step
  refine Ends.of_bind (Ends.of_lift (fun target followed => ?_) follows)
  obtain ⟨target, hopped⟩ := target
  dsimp only
  split
  · exact gives_of_pure .unknown
  · exact gives_of_pure .never
  · next schema entries read =>
    have found := Graph.get?_of_entries? read
    split
    · exact gives_of_pure .unknown
    · split
      · next wanted =>
        rw [Bool.and_eq_true, Option.isSome_iff_exists] at wanted
        obtain ⟨isAsked, text, given⟩ := wanted
        obtain ⟨may, ends⟩ := declared schema entries text hopped followed found
          (bind_str?_eq_some_iff.1 given) isAsked
        refine Ends.of_bind (ends.mono ?_)
        rintro name after ⟨grows, isNamed⟩
        exact Ends.of_pure ⟨grows, .name ⟨schema, may, nameOf?_eq_some isNamed⟩⟩
      · next unwanted =>
        split
        · exact Ends.of_bind (Ends.of_modify (Ends.of_pure ⟨contract.warned draft _, .unknown⟩))
        · next outside =>
          refine written schema entries hopped followed found (by simpa using outside) ?_
          intro isAsked text titled
          simp [isAsked, titled, Value.str, Value.str?] at unwanted
  · exact gives_of_pure .unknown

end Contract

/-- A value that leads to a schema with a title is mentioned by the name of the schema. -/
theorem step_of_titled {job : Job} {inner : Inner} {around : List Nat} {v : Value} {schema : Nat}
    {entries : Entries} {text : String} {hopped : Bool}
    (followed : follow job.graph (.node job.root) v = .ok (.node schema, hopped))
    (found : job.graph.get? schema = some (.mapping entries))
    (titled : entries.get? "title" = some (.str text)) :
    job.step inner around true v = (job.declare inner around "" schema entries >>= fun name =>
      pure (.name name)) := by
  have inhabited : entries.isEmpty = false := by
    cases entries with
    | nil => cases titled
    | cons entry entries => rfl
  have title := bind_str?_eq_some_iff.2 titled
  unfold Job.step
  rw [followed, lift_ok_bind]
  dsimp only
  rw [Graph.entries?_of_get? found]
  simp [inhabited, title]

end Compile

end Typewright
