import Typewright.Proofs.Compile.Lockstep
import Typewright.Proofs.Compile.Met
import Typewright.Proofs.Compile.Terminates

/-!
# One declaration for each name

A name is given before the body behind it is compiled, so while a schema is being declared the draft
holds names without bodies. What a step keeps is therefore said of the names that it adds: each gets
its body before the step is over (`Compile.Fills`).

Which names `Job.declare` gives during a run is seen by a run that checks each of them and stops at
one that does not pass (`Job.runChecked`). If it never stops, it is the same run
(`Compile.OnlyGives`). Main statement: if referenced schemas are declared, every name that is given
or mentioned is that of exactly one declaration, and the root is declared first
(`Compile.source_declares_once`).
-/

namespace Typewright.Compile

/-! ## Bodies for names -/

/-- No schema has two names and no two schemas share one. -/
structure Once (names : List (Nat × String)) : Prop where
  schemas : (names.map (·.1)).Nodup
  texts : (names.map (·.2)).Nodup

/-- What a step of a compilation that declares referenced schemas does to its draft. -/
structure Fills (before after : Draft) : Prop where
  names : before.names <+: after.names
  once : Once before.names → Once after.names
  bodies : ∃ more, after.bodies = before.bodies ++ more ∧
    ∀ body ∈ more, ∀ text ∈ body.2.2.names, text ∈ after.names.map (·.2)
  filled : ∀ schema ∈ after.names.map (·.1),
    schema ∈ before.names.map (·.1) ∨ schema ∈ after.bodies.map (·.1)

namespace Fills

theorem refl (draft : Draft) : Fills draft draft :=
  ⟨List.prefix_rfl, id, ⟨[], by simp, by simp⟩, fun _ => Or.inl⟩

theorem trans {a b c : Draft} (first : Fills a b) (second : Fills b c) : Fills a c := by
  obtain ⟨more, early, mentions⟩ := first.bodies
  obtain ⟨further, late, mentionsLater⟩ := second.bodies
  refine ⟨first.names.trans second.names, fun once => second.once (first.once once),
    ⟨more ++ further, by rw [late, early, List.append_assoc], fun body member text inside => ?_⟩,
    fun schema member => ?_⟩
  · rcases List.mem_append.1 member with old | new
    · exact (second.names.map _).subset (mentions body old text inside)
    · exact mentionsLater body new text inside
  · rcases second.filled schema member with old | done
    · refine (first.filled schema old).imp id fun doneEarlier => ?_
      rw [late, List.map_append]
      exact List.mem_append_left _ doneEarlier
    · exact Or.inr done

end Fills

/-- What a compilation that declares referenced schemas agrees to about its names. -/
def filling : Contract where
  grows := Fills
  isRaw := fun _ => True
  fault := fun _ => True
  refl := Fills.refl
  trans := Fills.trans
  names := Fills.names
  warned draft warnings := ⟨List.prefix_rfl, id, ⟨[], by simp, by simp⟩, fun _ => Or.inl⟩
  malformed _ _ := trivial

/-- A schema without a name gets a free one. -/
theorem Once.give {draft : Draft} {schema : Nat} (title : String) (once : Once draft.names)
    (missing : draft.nameOf? schema = none) : Once (draft.give schema title).names := by
  constructor
  · rw [Draft.give, List.map_append, List.map_singleton, ← List.concat_eq_append]
    exact once.schemas.concat (nameOf?_eq_none missing)
  · rw [Draft.give, List.map_append, List.map_singleton, ← List.concat_eq_append]
    exact once.texts.concat (freeName_not_mem draft title)

/-- A body that is finished after its name was given. -/
theorem Fills.finish {draft after : Draft} {schema : Nat} {title : String} {comment : Comment}
    {body : DeclarationBody} (missing : draft.nameOf? schema = none)
    (fills : Fills (draft.give schema title) after)
    (mentions : ∀ text ∈ body.names, text ∈ after.names.map (·.2)) :
    Fills draft (after.finish schema comment body) := by
  obtain ⟨more, bodies, mentionsInside⟩ := fills.bodies
  refine ⟨(List.prefix_append _ _).trans fills.names,
    fun once => fills.once (once.give title missing),
    ⟨more ++ [(schema, comment, body)], ?_, fun one member => ?_⟩, fun other member => ?_⟩
  · rw [Draft.finish, bodies, List.append_assoc]
    rfl
  · rcases List.mem_append.1 member with old | new
    · exact mentionsInside one old
    · rw [List.mem_singleton.1 new]
      exact mentions
  · simp only [Draft.finish, List.map_append, List.mem_append]
    rcases fills.filled other member with early | done
    · rw [Draft.give, List.map_append, List.mem_append] at early
      exact early.imp id fun same => Or.inr (by simpa using same)
    · exact Or.inr (Or.inl done)

section

variable {job : Job}

/-- The body of a declaration mentions names that are given when it is finished. -/
theorem body_fills {inner : Inner}
    (fills : ∀ around isNamed v d, filling.Gives Anything d (inner around isNamed v))
    (around : List Nat) (draft : Draft) (schema : Nat) (entries : Entries) :
    Ends draft (job.body inner around schema entries) (fun body after =>
      Fills draft after ∧ ∀ text ∈ body.names, text ∈ after.names.map (·.2)) fun _ => True := by
  have asks : filling.Asks Anything job inner around entries draft :=
    fun v _ d _ => fills around true v d
  refine (Contract.body asks fun d _ => fills around false (.node schema) d).mono ?_
  rintro body after ⟨inside, composed⟩
  refine ⟨inside, fun text mentioned => ?_⟩
  obtain ⟨other, _, given⟩ := names_of_composedBody composed mentioned
  exact List.mem_map_of_mem given

variable (declares : job.options.declareReferenced = true)
include declares

/-- Declaring a schema fills its name and what its body declares. -/
theorem declare_fills {inner : Inner}
    (fills : ∀ around isNamed v d, filling.Gives Anything d (inner around isNamed v))
    (around : List Nat) (standIn : String) (draft : Draft) (schema : Nat) (entries : Entries) :
    Ends draft (job.declare inner around standIn schema entries) (fun name after =>
      Fills draft after ∧ after.nameOf? schema = some name) fun _ => True := by
  refine filling.declare (fun title _ _ undeclared => absurd (Or.inr declares) undeclared)
    fun title missing _ => (body_fills fills around _ schema entries).mono ?_
  rintro body after ⟨inside, mentions⟩
  exact ⟨inside.names, inside.finish missing mentions⟩

theorem expression_fills (depth : Nat) (around : List Nat) (isNamed : Bool) (v : Value)
    (draft : Draft) : filling.Gives Anything draft (job.expression depth around isNamed v) := by
  induction depth generalizing around isNamed v draft with
  | zero => exact Ends.of_throw trivial
  | succ depth ih =>
    refine filling.step (fun _ _ => trivial)
      (fun schema entries _ _ _ _ _ _ =>
        ⟨trivial, declare_fills declares ih around "" draft schema entries⟩)
      fun schema entries _ _ _ _ _ => ?_
    have asks : filling.Asks Anything job (job.expression depth) (schema :: around) entries draft :=
      fun w _ d _ => ih (schema :: around) true w d
    exact Contract.written asks fun _ _ => trivial

theorem declareDefinitions_fills (entries : Entries) (draft : Draft) :
    Ends draft (job.declareDefinitions entries) (fun _ after => Fills draft after)
      fun _ => True := by
  unfold Job.declareDefinitions
  refine Ends.of_bind (Ends.of_lift (fun definitions _ => ?_) fun _ _ => trivial)
  refine Ends.of_bind ((Ends.of_forIn (Fills draft) definitions (.refl draft) ?_).mono
    fun _ after fills => Ends.of_pure fills)
  rintro ⟨key, v⟩ - d earlier
  dsimp only
  split
  · next schema inside _ =>
    have declared := declare_fills declares (expression_fills declares job.depth) [] "Definition" d
      schema inside
    exact Ends.of_bind (declared.mono fun name after facts =>
      Ends.of_pure (earlier.trans facts.1))
  · exact Ends.of_pure earlier

/-- The root gets the first name. -/
theorem declare_root_first (entries : Entries) :
    Ends {} (job.declare (job.expression job.depth) [] "" job.root entries) (fun _ after =>
      Fills {} after ∧ ∃ name, [(job.root, name)] <+: after.names) fun _ => True := by
  have declared := declare_fills declares (expression_fills declares job.depth) [] "" {} job.root
    entries
  refine ⟨fun name after ran => ⟨(declared.runs name after ran).1, ?_⟩, fun _ _ => trivial⟩
  have first : Runs {} (job.declare (job.expression job.depth) [] "" job.root entries)
      fun _ after => ∃ name, [(job.root, name)] <+: after.names := by
    unfold Job.declare
    have unnamed : ({} : Draft).nameOf? job.root = none := rfl
    refine Runs.of_bind (Runs.of_get ?_)
    rw [unnamed]
    dsimp only
    refine Runs.of_bind (Runs.of_get (Runs.of_bind (Runs.of_lift fun title _ => ?_)))
    refine Runs.of_bind (Runs.of_modify ?_)
    rw [if_pos (Or.inl rfl)]
    refine Runs.of_bind ((body_fills (expression_fills declares job.depth) [] _ job.root
      entries).runs.mono ?_)
    rintro body after ⟨inside, _⟩
    exact Runs.of_bind (Runs.of_modify (Runs.of_pure ⟨_, inside.names⟩))
  exact first name after ran

/-- What a whole compilation does. -/
theorem run_fills : Runs {} (Job.run job) fun _ after =>
    Fills {} after ∧ ∃ name, [(job.root, name)] <+: after.names := by
  unfold Job.run
  split
  · next entries _ =>
    split
    · exact Runs.of_throw
    · refine Runs.of_bind ((declare_root_first declares entries).runs.mono ?_)
      rintro _ between ⟨fills, name, first⟩
      split
      · refine (declareDefinitions_fills declares entries between).runs.mono ?_
        exact fun _ after later => ⟨fills.trans later, name, first.trans later.names⟩
      · exact Runs.of_pure ⟨fills, name, first⟩
  · exact Runs.of_throw

end

/-! ## Checking the names that are given -/

/-- Declares the definitions of the root that are mappings, asking for their names in a given
way. -/
def Job.declareDefinitionsBy (job : Job) (ask : Ask) (entries : Entries) : Compiling Unit := do
  let definitions ← entriesUnder job.graph entries "definitions"
  for (_, v) in definitions do
    match v, job.graph.entries? v with
    | .node schema, some entries =>
      let _ ← ask [] "Definition" schema entries
    | _, _ => pure ()

/-- Compiles the root and, if asked to, its definitions, asking for names in a given way. -/
def Job.runBy (job : Job) (ask : Ask) : Compiling Unit := do
  match job.graph.entries? (.node job.root) with
  | some entries =>
    match (entries.get? "title").bind Value.str? with
    | none => throw .untitledRoot
    | some _ =>
      let _ ← ask [] "" job.root entries
      if job.options.declareUnreachable then job.declareDefinitionsBy ask entries
  | none => throw .noSuchPart

/-- Compilations that ask for names in related ways are related. -/
theorem Lockstep.runBy {lockstep : Lockstep} {job : Job} {ask other : Ask}
    (root : ∀ entries, job.graph.entries? (.node job.root) = some entries →
      lockstep.related (ask [] "" job.root entries) (other [] "" job.root entries))
    (definition : job.options.declareUnreachable = true → ∀ key schema inside,
      (∃ entries definitions, job.graph.entries? (.node job.root) = some entries ∧
        entriesUnder job.graph entries "definitions" = .ok definitions ∧
        (key, .node schema) ∈ definitions) →
      job.graph.entries? (.node schema) = some inside →
      lockstep.related (ask [] "Definition" schema inside) (other [] "Definition" schema inside)) :
    lockstep.related (job.runBy ask) (job.runBy other) := by
  unfold Job.runBy
  split
  · next entries read =>
    split
    · exact lockstep.throw _
    · refine lockstep.bind (root entries read) fun _ => ?_
      split
      · next unreachable =>
        unfold Job.declareDefinitionsBy
        refine Lockstep.lift fun definitions given => ?_
        refine lockstep.bind (Lockstep.forIn definitions ?_) fun _ => lockstep.pure _
        rintro ⟨key, v⟩ member
        dsimp only
        split
        · next schema inside readInside =>
          exact lockstep.bind (definition unreachable key schema inside
            ⟨entries, definitions, read, given, member⟩ readInside) fun _ => lockstep.pure _
        · exact lockstep.pure _
      · exact lockstep.pure _
  · exact lockstep.throw _

/-- A compilation asks by declaring. -/
theorem Job.run_eq_runBy (job : Job) :
    job.run = job.runBy (job.declare (job.expression job.depth)) := rfl

/-- Declares a schema, and stops if it may not have the name that it gets. -/
def Job.declareChecked (job : Job) (may : Nat → String → Bool) (inner : Inner) : Ask :=
  fun around standIn schema entries => do
    let name ← job.declare inner around standIn schema entries
    if may schema name then return name else throw .endless

/-- The type of a value, up to a depth, with every name that is given checked. -/
def Job.expressionChecked (job : Job) (may : Nat → String → Bool) : Nat → Inner
  | 0 => fun _ _ _ => throw .endless
  | depth + 1 =>
    job.stepBy (job.declareChecked may (job.expressionChecked may depth))
      (job.expressionChecked may depth)

/-- A compilation in which every name that is given is checked. -/
def Job.runChecked (job : Job) (may : Nat → String → Bool) : Compiling Unit :=
  job.runBy (job.declareChecked may (job.expressionChecked may job.depth))

/-- In a compilation that gives a result, no schema is given a name that it may not have. -/
def OnlyGives (job : Job) (may : Nat → String → Bool) : Prop :=
  ∃ draft, (Job.run job).run {} = .ok ((), draft) ∧ (job.runChecked may).run {} = .ok ((), draft)

/-! ## The names that are given -/

/-- A step adds names only, and if those are among the final ones, another step does the same. -/
def reproducing (final : List (Nat × String)) : Lockstep where
  related x y := ∀ draft, Runs draft x fun a after =>
    draft.names <+: after.names ∧ (after.names <+: final → y.run draft = .ok (a, after))
  pure a draft := Runs.of_pure ⟨List.prefix_rfl, fun _ => rfl⟩
  throw e draft := Runs.of_throw
  bind := by
    intro α β x y next other first later draft
    refine Runs.of_bind ((first draft).mono ?_)
    rintro a between ⟨names, reproduced⟩
    refine (later a between).mono ?_
    rintro b after ⟨namesLater, reproducedLater⟩
    refine ⟨names.trans namesLater, fun isFinal => ?_⟩
    rw [StateT.run_bind, reproduced (namesLater.trans isFinal)]
    exact reproducedLater isFinal

section

variable {final : List (Nat × String)}

theorem reproducing_get : (reproducing final).related get get :=
  fun _ => Runs.of_get ⟨List.prefix_rfl, fun _ => rfl⟩

theorem reproducing_modify {change : Draft → Draft}
    (adds : ∀ draft, draft.names <+: (change draft).names) :
    (reproducing final).related (modify change) (modify change) :=
  fun draft => Runs.of_modify ⟨adds draft, fun _ => rfl⟩

variable {job : Job} {inner checked : Inner}

theorem declare_reproduced (inside : (reproducing final).Inside id inner checked)
    (around : List Nat) (standIn : String) (schema : Nat) (entries : Entries) :
    (reproducing final).related (job.declare inner around standIn schema entries)
      (job.declare checked around standIn schema entries) := by
  have body := Lockstep.body (Alike.refl job).toReadAlike
    (fun _ => inside.asks around (job.objectPositions entries)) (inside around false (.node schema))
  rw [List.map_id, Entries.renumber_id] at body
  unfold Job.declare
  refine (reproducing final).bind reproducing_get fun draft => ?_
  split
  · exact (reproducing final).pure _
  · refine (reproducing final).bind reproducing_get fun draft => Lockstep.lift fun title _ => ?_
    refine (reproducing final).bind (reproducing_modify fun d => List.prefix_append _ _)
      fun _ => ?_
    split
    · refine (reproducing final).bind body fun body => ?_
      exact (reproducing final).bind (reproducing_modify fun d => List.prefix_rfl)
        fun _ => (reproducing final).pure _
    · exact (reproducing final).pure _

section

variable {may : Nat → String → Bool} (declares : job.options.declareReferenced = true)
variable (passes : ∀ entry ∈ final, may entry.1 entry.2 = true)
include declares passes

theorem declareChecked_reproduced {depth : Nat}
    (inside : (reproducing final).Inside id (job.expression depth) checked) (around : List Nat)
    (standIn : String) (schema : Nat) (entries : Entries) :
    (reproducing final).related
      (job.declare (job.expression depth) around standIn schema entries)
      (job.declareChecked may checked around standIn schema entries) := by
  intro draft name after ran
  obtain ⟨_, given⟩ := (declare_fills declares (expression_fills declares depth) around standIn
    draft schema entries).runs name after ran
  obtain ⟨names, reproduced⟩ := declare_reproduced inside around standIn schema entries draft name
    after ran
  refine ⟨names, fun isFinal => ?_⟩
  have passed : may schema name = true :=
    passes (schema, name) (isFinal.subset (nameOf?_eq_some given))
  rw [Job.declareChecked, StateT.run_bind, reproduced isFinal]
  change (if may schema name then (pure name : Compiling String) else throw .endless).run after = _
  rw [if_pos passed]
  rfl

theorem expressionChecked_reproduced (depth : Nat) :
    (reproducing final).Inside id (job.expression depth) (job.expressionChecked may depth) := by
  induction depth with
  | zero => exact fun _ _ _ => (reproducing final).throw _
  | succ depth ih =>
    intro around isNamed v
    refine Lockstep.stepBy (Alike.refl job).toReadAlike ih
      (reproducing_modify fun _ => List.prefix_rfl) around v isNamed ?_ fun schema entries _ => ?_
    · rw [Value.renumber_id]
      cases follow job.graph (.node job.root) v with
      | error e => rfl
      | ok target => simp [Except.map, Value.renumber_id]
    · rw [List.map_id, Entries.renumber_id]
      exact declareChecked_reproduced declares passes ih around "" schema entries

theorem runChecked_reproduced :
    (reproducing final).related (Job.run job) (job.runChecked may) := by
  have inside : (reproducing final).Inside id (job.expression job.depth)
      (job.expressionChecked may job.depth) := expressionChecked_reproduced declares passes job.depth
  have asks := declareChecked_reproduced declares passes inside []
  rw [Job.run_eq_runBy, Job.runChecked]
  exact Lockstep.runBy (fun entries _ => asks "" job.root entries)
    fun _ _ schema inside _ _ => asks "Definition" schema inside

end

end

/-! ## Sources -/

/-- The schemas that a source declares, with their names. -/
def Source.named (source : Source) : List (Nat × String) :=
  source.declarations.map fun d => (d.schema, d.name)

/-- Every name is declared exactly once. -/
structure DeclaredOnce (job : Job) (source : Source) : Prop where
  /-- Every name of the draft has a declaration, in the order in which they were given. -/
  filled : ∃ draft, (Job.run job).run {} = .ok ((), draft) ∧ source.named = draft.names
  once : Once source.named
  rootFirst : source.named.head?.map (·.1) = some job.root
  /-- A schema is only given the name of the one declaration that is for the schema or has the
  name. -/
  given : OnlyGives job fun schema name =>
    source.named.filter (fun entry => entry.1 == schema || entry.2 == name) == [(schema, name)]
  /-- A name that a declaration mentions is that of one declaration. -/
  mentioned : ∀ d ∈ source.declarations, ∀ name ∈ d.body.names,
    (source.named.map (·.2)).count name = 1

/-- A name that is given once is the only one of its schema. -/
theorem Once.filter_eq {names : List (Nat × String)} (once : Once names) {schema : Nat}
    {name : String} (member : (schema, name) ∈ names) :
    names.filter (fun entry => entry.1 == schema || entry.2 == name) = [(schema, name)] := by
  have same : ∀ entry ∈ names,
      (entry.1 == schema || entry.2 == name) = (entry == (schema, name)) := by
    intro entry present
    rw [Bool.eq_iff_iff, Bool.or_eq_true, beq_iff_eq, beq_iff_eq, beq_iff_eq]
    constructor
    · rintro (bySchema | byName)
      · exact List.inj_on_of_nodup_map once.schemas present member bySchema
      · exact List.inj_on_of_nodup_map once.texts present member byName
    · rintro rfl
      exact Or.inl rfl
  rw [List.filter_congr same, List.filter_beq,
    List.count_eq_one_of_mem (List.Nodup.of_map _ once.schemas) member]
  rfl

/-- A source is made of the draft of a run. -/
theorem exists_run_of_source {g : Graph} {schema : Value} {options : Options} {source : Source}
    (made : Compile.source g schema options = .ok source) :
    ∃ root draft, schema = .node root ∧
      (Job.run ⟨g, root, options⟩).run {} = .ok ((), draft) ∧
      source.declarations = draft.declarations ∧ source.warnings = draft.warnings := by
  cases schema with
  | scalar s => cases made
  | node root =>
    obtain ⟨⟨_, draft⟩, ran, made⟩ := exists_of_bind_ok made
    refine ⟨root, draft, rfl, ran, ?_⟩
    dsimp only at made
    split at made
    · cases made
    · cases made
      exact ⟨rfl, rfl⟩

/-- The draft of a run says what its source declares. -/
theorem declaredOnce_of_run {job : Job} (declares : job.options.declareReferenced = true)
    {draft : Draft} (ran : (Job.run job).run {} = .ok ((), draft)) {source : Source}
    (same : source.declarations = draft.declarations) : DeclaredOnce job source := by
  obtain ⟨fills, name, first⟩ := run_fills declares () draft ran
  have once : Once draft.names := fills.once ⟨List.nodup_nil, List.nodup_nil⟩
  have named : source.named = draft.names := by
    rw [Source.named, same]
    exact declarations_of_complete fun other member =>
      (fills.filled other member).resolve_left (by simp)
  have passes : ∀ entry ∈ draft.names,
      (source.named.filter (fun other => other.1 == entry.1 || other.2 == entry.2) ==
        [(entry.1, entry.2)]) = true := by
    intro entry member
    rw [named, once.filter_eq member, beq_self_eq_true]
  refine ⟨⟨draft, ran, named⟩, named ▸ once, ?_, ⟨draft, ran, ?_⟩, fun d isDeclared text inside => ?_⟩
  · obtain ⟨rest, whole⟩ := first
    rw [named, ← whole]
    rfl
  · exact (runChecked_reproduced declares passes {} () draft ran).2 List.prefix_rfl
  · rw [same] at isDeclared
    obtain ⟨_, isBody⟩ := exists_of_mem_declarations isDeclared
    obtain ⟨more, bodies, mentions⟩ := fills.bodies
    rw [bodies] at isBody
    rw [named]
    exact List.count_eq_one_of_mem once.texts (mentions _ isBody text inside)

/-- If referenced schemas are declared, every name is declared exactly once. -/
theorem source_declares_once {g : Graph} {schema : Value} {options : Options} {source : Source}
    (declares : options.declareReferenced = true)
    (made : Compile.source g schema options = .ok source) :
    ∃ root, schema = .node root ∧ DeclaredOnce ⟨g, root, options⟩ source := by
  obtain ⟨root, draft, rfl, ran, same, _⟩ := exists_run_of_source made
  exact ⟨root, rfl, declaredOnce_of_run declares ran same⟩

/-- A definition that mentions itself, and the root, while it is being declared. -/
theorem source_declares_once_knot : ∃ source,
    Compile.source knot (.node 0) {} = .ok source ∧
      source.named = [(0, "Root"), (4, "Next")] ∧ DeclaredOnce ⟨knot, 0, {}⟩ source := by
  obtain ⟨source, made, named⟩ : ∃ source, Compile.source knot (.node 0) {} = .ok source ∧
      source.named = [(0, "Root"), (4, "Next")] := exists_of_toOption_map (by decide +kernel)
  have declares : ({} : Options).declareReferenced = true := rfl
  obtain ⟨root, same, once⟩ := source_declares_once declares made
  cases same
  exact ⟨source, made, named, once⟩

end Typewright.Compile
