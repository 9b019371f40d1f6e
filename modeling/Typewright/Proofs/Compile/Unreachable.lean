import Typewright.Proofs.Compile.Declared
import Typewright.Proofs.TypeScript.Comments

/-!
# Declaring definitions that are not reached

A step of a compilation only appends to its draft: names and warnings come behind those that are
there, and every body that it adds is for a schema that had no name (`Compile.Appends`). So the
declarations that were finished stay as they are, in their places, and further ones follow
(`Compile.Appends.declarations`).

Whether definitions are declared that are not reached makes no difference until the root is declared.
With them, the compilation goes on from the draft at which it ends without them, so its text and its
warnings begin with those of the other (`Compile.source_unreachable_appends`).
-/

namespace Typewright.Compile

/-! ## Appending to a draft -/

/-- What is new in a draft comes behind what is there, and no new body is for a schema that had a
name. -/
structure Appends (before after : Draft) : Prop where
  names : before.names <+: after.names
  bodies : ∃ more, after.bodies = before.bodies ++ more ∧
    ∀ body ∈ more, body.1 ∉ before.names.map (·.1)
  warnings : before.warnings <+: after.warnings

namespace Appends

variable {before between after draft : Draft}

theorem refl (draft : Draft) : Appends draft draft :=
  ⟨List.prefix_rfl, ⟨[], by simp, by simp⟩, List.prefix_rfl⟩

theorem trans (first : Appends before between) (second : Appends between after) :
    Appends before after := by
  obtain ⟨more, early, fresh⟩ := first.bodies
  obtain ⟨further, late, freshLater⟩ := second.bodies
  refine ⟨first.names.trans second.names,
    ⟨more ++ further, by rw [late, early, List.append_assoc], fun body member => ?_⟩,
    first.warnings.trans second.warnings⟩
  rcases List.mem_append.1 member with old | new
  · exact fresh body old
  · exact fun named => freshLater body new ((first.names.map _).subset named)

theorem give (draft : Draft) (schema : Nat) (title : String) :
    Appends draft (draft.give schema title) :=
  ⟨List.prefix_append _ _, ⟨[], by simp [Draft.give], by simp⟩, List.prefix_rfl⟩

/-- A schema without a name gets one, and a body when what the body declares is done. -/
theorem finish {schema : Nat} {title : String} (missing : draft.nameOf? schema = none)
    (appends : Appends (draft.give schema title) after) (comment : Comment)
    (body : DeclarationBody) : Appends draft (after.finish schema comment body) := by
  have whole := (give draft schema title).trans appends
  obtain ⟨more, bodies, fresh⟩ := whole.bodies
  refine ⟨whole.names, ⟨more ++ [(schema, comment, body)], ?_, fun one member => ?_⟩,
    whole.warnings⟩
  · rw [Draft.finish, bodies, List.append_assoc]
  · rcases List.mem_append.1 member with old | new
    · exact fresh one old
    · rw [List.mem_singleton.1 new]
      exact nameOf?_eq_none missing

/-- The declarations that were finished are the first ones still. -/
theorem declarations (appends : Appends before after) :
    before.declarations <+: after.declarations := by
  obtain ⟨further, names⟩ := appends.names
  obtain ⟨more, bodies, fresh⟩ := appends.bodies
  have same : ∀ entry ∈ before.names, after.bodies.find? (·.1 == entry.1) =
      before.bodies.find? (·.1 == entry.1) := by
    intro entry member
    have none : more.find? (·.1 == entry.1) = none := by
      rw [List.find?_eq_none]
      intro body new isFor
      exact fresh body new (beq_iff_eq.1 isFor ▸ List.mem_map_of_mem member)
    rw [bodies, List.find?_append, none, Option.or_none]
  refine ⟨further.filterMap fun entry => (after.bodies.find? (·.1 == entry.1)).map fun body =>
    { schema := entry.1, name := entry.2, comment := body.2.1, body := body.2.2 }, ?_⟩
  rw [Draft.declarations, Draft.declarations, ← names, List.filterMap_append]
  congr 1
  refine List.filterMap_congr fun entry member => ?_
  rcases entry with ⟨schema, name⟩
  dsimp only
  rw [same _ member]

end Appends

/-- Steps that only append to a draft. -/
def appending : Lockstep where
  related x _ := ∀ draft, Runs draft x fun _ after => Appends draft after
  pure _ draft := Runs.of_pure (.refl draft)
  throw _ _ := Runs.of_throw
  bind first later draft := Runs.of_bind ((first draft).mono fun a between appends =>
    (later a between).mono fun _ _ more => appends.trans more)

/-! ## What is declared -/

section

variable {job : Job} {inner : Inner}

/-- What declaring a schema does: it only appends, the schema has a name afterwards, and the root has
a body if it had no name before. -/
theorem declare_appends (inside : appending.Inside id inner inner) (around : List Nat)
    (standIn : String) (schema : Nat) (entries : Entries) (draft : Draft) :
    Runs draft (job.declare inner around standIn schema entries) fun _ after =>
      Appends draft after ∧ schema ∈ after.names.map (·.1) ∧
        (schema = job.root → draft.nameOf? schema = none → schema ∈ after.bodies.map (·.1)) := by
  have body := Lockstep.body (Alike.refl job).toReadAlike
    (fun _ => inside.asks around (job.objectPositions entries)) (inside around false (.node schema))
  rw [List.map_id, Entries.renumber_id] at body
  unfold Job.declare
  refine Runs.of_bind (Runs.of_get ?_)
  cases found : draft.nameOf? schema with
  | some name =>
    exact Runs.of_pure ⟨.refl draft, List.mem_map_of_mem (nameOf?_eq_some found), by simp⟩
  | none =>
    refine Runs.of_bind (Runs.of_get (Runs.of_bind (Runs.of_lift fun title _ => ?_)))
    refine Runs.of_bind (Runs.of_modify ?_)
    have named : schema ∈ (draft.give schema title).names.map (·.1) := by simp [Draft.give]
    split
    · refine Runs.of_bind ((body (draft.give schema title)).mono fun content after appends => ?_)
      refine Runs.of_bind (Runs.of_modify (Runs.of_pure ⟨appends.finish found _ content,
        (appends.names.map _).subset named, fun _ _ => ?_⟩))
      simp
    · next undeclared =>
      exact Runs.of_pure ⟨.give draft schema title, named, fun isRoot =>
        absurd (Or.inl isRoot) undeclared⟩

theorem expression_appends (job : Job) (depth : Nat) :
    appending.Inside id (job.expression depth) (job.expression depth) := by
  induction depth with
  | zero => exact fun _ _ _ => appending.throw _
  | succ depth ih =>
    intro around isNamed v
    have warns : appending.related (warn .unnamedRecursion) (warn .unnamedRecursion) := fun draft =>
      Runs.of_modify ⟨List.prefix_rfl, ⟨[], by simp, by simp⟩, List.prefix_append _ _⟩
    refine Lockstep.stepBy (Alike.refl job).toReadAlike ih warns around v isNamed ?_
      fun schema entries _ => ?_
    · rw [Value.renumber_id]
      cases follow job.graph (.node job.root) v with
      | error e => rfl
      | ok target => simp [Except.map, Value.renumber_id]
    · rw [List.map_id, Entries.renumber_id]
      exact fun draft => (declare_appends ih around "" schema entries draft).mono fun _ _ facts =>
        facts.1

/-- Going through a list: every step only appends, and what one does for its element stays done. -/
theorem runs_forIn {α : Type} (good : α → Draft → Prop)
    (stays : ∀ {x : α} {a b : Draft}, Appends a b → good x a → good x b) {draft : Draft}
    {f : α → PUnit → Compiling (ForInStep PUnit)} (l : List α)
    (each : ∀ x ∈ l, ∀ d, Runs d (f x ⟨⟩) fun round after =>
      round = .yield ⟨⟩ ∧ Appends d after ∧ good x after) :
    Runs draft (forIn l ⟨⟩ f) fun _ after => Appends draft after ∧ ∀ x ∈ l, good x after := by
  induction l generalizing draft with
  | nil => exact Runs.of_pure ⟨.refl draft, by simp⟩
  | cons x l ih =>
    rw [List.forIn_cons]
    refine Runs.of_bind ((each x List.mem_cons_self draft).mono ?_)
    rintro round between ⟨rfl, appends, here⟩
    refine (ih fun y member => each y (List.mem_cons_of_mem _ member)).mono ?_
    rintro _ after ⟨further, others⟩
    exact ⟨appends.trans further, List.forall_mem_cons.2 ⟨stays further here, others⟩⟩

/-- If an entry holds a mapping, that has a name. -/
def IsNamed (job : Job) (entry : Scalar × Value) (draft : Draft) : Prop :=
  ∀ schema, entry.2 = .node schema → job.graph.isMapping (.node schema) = true →
    schema ∈ draft.names.map (·.1)

/-- Declaring the definitions only appends, and gives a name to each of them that is a mapping. -/
theorem declareDefinitions_appends (entries : Entries) (draft : Draft) :
    Runs draft (job.declareDefinitions entries) fun _ after => Appends draft after ∧
      ∀ definitions, entriesUnder job.graph entries "definitions" = .ok definitions →
        ∀ entry ∈ definitions, IsNamed job entry after := by
  unfold Job.declareDefinitions
  refine Runs.of_bind (Runs.of_lift fun definitions given => ?_)
  have stays : ∀ {entry : Scalar × Value} {a b : Draft}, Appends a b → IsNamed job entry a →
      IsNamed job entry b :=
    fun appends named schema held isMapping => (appends.names.map _).subset (named schema held isMapping)
  refine Runs.of_bind ((runs_forIn (IsNamed job) stays definitions ?_).mono ?_)
  · rintro ⟨key, v⟩ - d
    dsimp only
    split
    · next schema inside read =>
      refine Runs.of_bind ((declare_appends (expression_appends job job.depth) [] "Definition" schema
        inside d).mono ?_)
      rintro _ after ⟨appends, named, _⟩
      refine Runs.of_pure ⟨rfl, appends, fun other same _ => ?_⟩
      cases same
      exact named
    · next other =>
      refine Runs.of_pure ⟨rfl, .refl d, fun schema same isMapping => ?_⟩
      obtain ⟨inside, read⟩ := Option.isSome_iff_exists.1 isMapping
      cases same
      exact (other schema inside rfl read).elim
  · rintro _ after ⟨appends, named⟩
    refine Runs.of_pure ⟨appends, fun others givenToo => ?_⟩
    rw [given] at givenToo
    cases givenToo
    exact named

end

/-! ## With and without unreachable definitions -/

/-- A job with a choice about the definitions that are not reached. -/
def Job.withUnreachable (job : Job) (declareUnreachable : Bool) : Job :=
  { job with options := { job.options with declareUnreachable } }

/-- The choice makes no difference to what a value stands for. -/
theorem expression_withUnreachable (job : Job) (choice : Bool) (depth : Nat) :
    (job.withUnreachable choice).expression depth = job.expression depth := by
  induction depth with
  | zero => rfl
  | succ depth ih =>
    rw [Job.expression, Job.expression, ih]
    rfl

theorem declare_withUnreachable (job : Job) (choice : Bool) (inner : Inner) :
    (job.withUnreachable choice).declare inner = job.declare inner := rfl

/-- A run declares the root, and then the definitions if it is asked to. -/
theorem exists_of_run {job : Job} {draft : Draft} (ran : (Job.run job).run {} = .ok ((), draft)) :
    ∃ entries name first, job.graph.entries? (.node job.root) = some entries ∧
      (job.declare (job.expression job.depth) [] "" job.root entries).run {} = .ok (name, first) ∧
      (if job.options.declareUnreachable then job.declareDefinitions entries else pure ()).run first =
        .ok ((), draft) := by
  unfold Job.run at ran
  split at ran
  · next entries read =>
    split at ran
    · cases ran
    · obtain ⟨⟨name, first⟩, declared, rest⟩ := exists_of_bind_ok ran
      exact ⟨entries, name, first, read, declared, rest⟩
  · cases ran

theorem declarations_ne_nil {draft : Draft} {schema : Nat} (named : schema ∈ draft.names.map (·.1))
    (finished : schema ∈ draft.bodies.map (·.1)) : draft.declarations ≠ [] := by
  obtain ⟨entry, present, rfl⟩ := List.mem_map.1 named
  obtain ⟨body, isBody, same⟩ := List.mem_map.1 finished
  have found : (draft.bodies.find? (·.1 == entry.1)).isSome = true :=
    List.find?_isSome.2 ⟨body, isBody, by simp [same]⟩
  intro none
  have missing := List.filterMap_eq_nil_iff.1 none entry present
  rcases entry with ⟨schema, name⟩
  dsimp only at missing found
  rw [Option.map_eq_none_iff.1 missing] at found
  cases found

/-- A run that declares all definitions goes on from the draft of the run that does not, in which the
root is declared. -/
theorem run_withUnreachable {job : Job} {first draft : Draft}
    (reachedOnly : job.options.declareUnreachable = false)
    (ran : (Job.run job).run {} = .ok ((), first))
    (ranOn : (Job.run (job.withUnreachable true)).run {} = .ok ((), draft)) :
    Appends first draft ∧ first.declarations ≠ [] ∧
      ∀ entries definitions, job.graph.entries? (.node job.root) = some entries →
        entriesUnder job.graph entries "definitions" = .ok definitions →
        ∀ entry ∈ definitions, IsNamed job entry draft := by
  obtain ⟨entries, name, root, read, declared, rest⟩ := exists_of_run ran
  obtain ⟨others, other, rootToo, readToo, declaredToo, further⟩ := exists_of_run ranOn
  rw [reachedOnly, if_neg (by simp)] at rest
  cases rest
  have same : others = entries := Option.some.inj (readToo.symm.trans read)
  subst same
  rw [declare_withUnreachable, expression_withUnreachable] at declaredToo
  have sameRoot := declaredToo.symm.trans declared
  cases sameRoot
  obtain ⟨_, named, finished⟩ := declare_appends (expression_appends job job.depth) [] "" job.root
    others {} name first declared
  obtain ⟨appends, definitionsNamed⟩ := declareDefinitions_appends others first () draft further
  refine ⟨appends, declarations_ne_nil named (finished rfl rfl), fun entriesToo definitions found => ?_⟩
  rw [read] at found
  cases found
  exact definitionsNamed definitions

/-! ## Sources -/

/-- The text of a source is that of its parts, each ended by a line feed. -/
theorem Source.toList_text {source : Source} (inhabited : source.declarations ≠ []) :
    source.text.toList = (((if source.banner = "" then [] else [source.banner]) ++
      source.declarations.map Declaration.text).map String.toList).flatMap (· ++ ['\n']) := by
  have stop : "\n".toList = ['\n'] := rfl
  rw [Source.text, String.toList_append, String.toList_intercalate, stop,
    intercalate_append_self (by simpa using fun _ => inhabited)]

theorem banner_of_source {g : Graph} {schema : Value} {options : Options} {source : Source}
    (made : Compile.source g schema options = .ok source) : options.banner = some source.banner := by
  cases schema with
  | scalar s => cases made
  | node root =>
    obtain ⟨⟨_, draft⟩, ran, made⟩ := exists_of_bind_ok made
    dsimp only at made
    split at made
    · cases made
    · next given =>
      cases made
      exact given

/-- With further declarations at the end, the text goes on where it ended. -/
theorem Source.text_extends {less more : Source} (inhabited : less.declarations ≠ [])
    (banner : less.banner = more.banner) (declarations : less.declarations <+: more.declarations) :
    less.text.toList <+: more.text.toList := by
  have moreInhabited : more.declarations ≠ [] := by
    intro none
    rw [none, List.prefix_nil] at declarations
    exact inhabited declarations
  rw [toList_text inhabited, toList_text moreInhabited, banner]
  refine List.IsPrefix.flatMap (List.IsPrefix.map _ ?_) _
  exact (List.prefix_append_right_inj _).2 (declarations.map _)

/-- Two ways to give options that differ at most in whether all definitions are declared. -/
def DifferInUnreachable (given other : Entries) : Prop :=
  ∀ key, key ≠ "unreachableDefinitions" → given.get? key = other.get? key

theorem ofEntries_of_differ {given other : Entries} (differ : DifferInUnreachable given other)
    (g : Graph) : Options.ofEntries g other = { Options.ofEntries g given with
      declareUnreachable := (Options.ofEntries g other).declareUnreachable } := by
  simp only [Options.ofEntries, Options.flag, Options.givenBanner,
    differ "declareExternallyReferenced" (by decide), differ "enableConstEnums" (by decide),
    differ "strictIndexSignatures" (by decide), differ "ignoreMinAndMaxItems" (by decide),
    differ "bannerComment" (by decide)]

/-- A named schema has one declaration that is for it or has its name. -/
theorem DeclaredOnce.exists_filter_eq {job : Job} {source : Source} (once : DeclaredOnce job source)
    {draft : Draft} (ran : (Job.run job).run {} = .ok ((), draft)) {schema : Nat}
    (named : schema ∈ draft.names.map (·.1)) : ∃ d, d.schema = schema ∧
      source.declarations.filter (fun o => o.schema == schema || o.name == d.name) = [d] := by
  obtain ⟨final, ranToo, filled⟩ := once.filled
  rw [ran] at ranToo
  cases ranToo
  obtain ⟨⟨_, name⟩, present, rfl⟩ := List.mem_map.1 named
  rw [← filled] at present
  have only := once.once.filter_eq present
  rw [Source.named, List.filter_map, List.map_eq_singleton_iff] at only
  obtain ⟨d, whole, same⟩ := only
  cases same
  exact ⟨d, rfl, whole⟩

/-- Declaring the definitions that are not reached only appends: the declarations, the text and the
warnings without them are the beginnings of those with them. If referenced schemas are declared, every
definition that is a mapping has one declaration then, which no other schema and no other name has. -/
theorem source_unreachable_appends {g : Graph} {schema : Value} {given other : Entries}
    {less more : Source} (differ : DifferInUnreachable given other)
    (off : (Options.ofEntries g given).declareUnreachable = false)
    (on : (Options.ofEntries g other).declareUnreachable = true)
    (without : Compile.source g schema (.ofEntries g given) = .ok less)
    (included : Compile.source g schema (.ofEntries g other) = .ok more) :
    less.declarations <+: more.declarations ∧ less.text.toList <+: more.text.toList ∧
      less.warnings <+: more.warnings ∧
      ((Options.ofEntries g other).declareReferenced = true →
        ∀ entries definitions, g.entries? schema = some entries →
          entriesUnder g entries "definitions" = .ok definitions →
          ∀ key id, (key, .node id) ∈ definitions → g.isMapping (.node id) = true →
            ∃ d, d.schema = id ∧
              more.declarations.filter (fun o => o.schema == id || o.name == d.name) = [d]) := by
  have options := ofEntries_of_differ differ g
  rw [on] at options
  have banner : less.banner = more.banner := by
    have one := banner_of_source without
    have two := banner_of_source included
    rw [options] at two
    exact Option.some.inj (one.symm.trans two)
  obtain ⟨root, first, rfl, ran, isLess, lessWarnings⟩ := exists_run_of_source without
  obtain ⟨rootToo, draft, same, ranOn, isMore, moreWarnings⟩ := exists_run_of_source included
  cases same
  rw [options] at ranOn
  obtain ⟨appends, inhabited, named⟩ := run_withUnreachable off ran ranOn
  rw [← isLess] at inhabited
  have declarations : less.declarations <+: more.declarations := by
    rw [isLess, isMore]
    exact appends.declarations
  refine ⟨declarations, Source.text_extends inhabited banner declarations, ?_, ?_⟩
  · rw [lessWarnings, moreWarnings]
    exact appends.warnings
  · intro declares entries definitions read under key id member isMapping
    rw [options] at declares
    exact (declaredOnce_of_run declares ranOn isMore).exists_filter_eq ranOn
      (named entries definitions read under _ member id rfl isMapping)

/-- A schema with three definitions: one that a property reaches, an array of itself without a title,
and one that is no mapping. -/
def strayed : Graph := ⟨#[
  .mapping [(.str "title", .str "Root"), (.str "properties", .node 1), (.str "definitions", .node 2)],
  .mapping [(.str "pet", .node 3)],
  .mapping [(.str "Pet", .node 3), (.str "Nest", .node 4), (.str "Any", .bool true)],
  .mapping [(.str "title", .str "Pet"), (.str "type", .str "string")],
  .mapping [(.str "type", .str "array"), (.str "items", .node 4)]]⟩

theorem source_unreachable_appends_strayed : ∃ less more,
    Compile.source strayed (.node 0) (.ofEntries strayed []) = .ok less ∧
    Compile.source strayed (.node 0)
      (.ofEntries strayed [(.str "unreachableDefinitions", .bool true)]) = .ok more ∧
    less.named = [(0, "Root"), (3, "Pet")] ∧
    more.named = [(0, "Root"), (3, "Pet"), (4, "Definition")] ∧
    less.text.toList <+: more.text.toList ∧ less.warnings <+: more.warnings ∧
    ∃ d, d.schema = 4 ∧
      more.declarations.filter (fun o => o.schema == 4 || o.name == d.name) = [d] := by
  obtain ⟨less, without, named⟩ : ∃ source,
      Compile.source strayed (.node 0) (.ofEntries strayed []) = .ok source ∧
        source.named = [(0, "Root"), (3, "Pet")] := exists_of_toOption_map (by decide +kernel)
  obtain ⟨more, included, namedToo⟩ : ∃ source, Compile.source strayed (.node 0)
      (.ofEntries strayed [(.str "unreachableDefinitions", .bool true)]) = .ok source ∧
        source.named = [(0, "Root"), (3, "Pet"), (4, "Definition")] :=
    exists_of_toOption_map (by decide +kernel)
  have differ : DifferInUnreachable [] [(.str "unreachableDefinitions", .bool true)] := by
    intro key other
    rw [Entries.get?_cons, if_neg (by simpa using other.symm)]
  obtain ⟨_, text, warnings, once⟩ :=
    source_unreachable_appends differ (by rfl) (by rfl) without included
  exact ⟨less, more, without, included, named, namedToo, text, warnings,
    once rfl _ [(.str "Pet", .node 3), (.str "Nest", .node 4), (.str "Any", .bool true)] rfl rfl
      (.str "Nest") 4 (by simp) rfl⟩

end Typewright.Compile
