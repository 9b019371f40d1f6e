import Typewright.Proofs.Compile.Whole
import Typewright.Proofs.TypeScript.Mentions

/-!
# Where mentioned names come from

Compiling a value meets the titled schemas whose names it writes: what the value leads to by
references, if its title is asked for, and otherwise what the schemas inside meet
(`Compile.Met`). Every name in the body of a declaration is that of a schema which the body meets
(`Compile.bodyMet_of_mem_names`).
-/

namespace Typewright.Compile

/-- A schema that is met, and mentioned by name, when a value is compiled. The flag says whether a
title of the value itself makes it a name. -/
inductive Met (job : Job) : Bool → Value → Nat → Prop
  | here {isNamed hopped : Bool} {v : Value} {schema : Nat} {entries : Entries} {text : String}
      (followed : follow job.graph (.node job.root) v = .ok (.node schema, hopped))
      (found : job.graph.get? schema = some (.mapping entries))
      (titled : entries.get? "title" = some (.str text)) (asked : (isNamed || hopped) = true) :
      Met job isNamed v schema
  | inside {isNamed hopped : Bool} {v : Value} {schema : Nat} {entries : Entries} {w : Value}
      {met : Nat}
      (followed : follow job.graph (.node job.root) v = .ok (.node schema, hopped))
      (found : job.graph.get? schema = some (.mapping entries))
      (untitled : (isNamed || hopped) = true → ∀ text, entries.get? "title" ≠ some (.str text))
      (asked : Asked job.graph entries w) (later : Met job true w met) : Met job isNamed v met

/-- A schema that is met when the body of a schema's declaration is compiled: by a schema inside or
by the schema itself, written out. -/
def BodyMet (job : Job) (schema met : Nat) : Prop :=
  (∃ entries v, job.graph.get? schema = some (.mapping entries) ∧ Asked job.graph entries v ∧
    Met job true v met) ∨ Met job false (.node schema) met

/-- A finished body that mentions only what it meets. -/
def BodyTraced (job : Job) (draft : Draft) (body : Nat × Comment × DeclarationBody) : Prop :=
  ∃ entries, ComposedBody (fun _ => True) (BodyMet job body.1) draft job entries body.2.2

theorem ComposedBody.mono {isRaw : String → Prop} {named : Nat → Prop} {before after : Draft}
    {job : Job} {entries : Entries} {body : DeclarationBody}
    (composed : ComposedBody isRaw named before job entries body)
    (names : before.names <+: after.names) : ComposedBody isRaw named after job entries body := by
  cases composed with
  | interface composed => exact .interface (composed.mono names)
  | constEnum listed given spelled => exact .constEnum listed given spelled
  | aliased composed => exact .aliased (composed.mono names)

theorem BodyTraced.mono {job : Job} {before after : Draft} {body : Nat × Comment × DeclarationBody}
    (traced : BodyTraced job before body) (names : before.names <+: after.names) :
    BodyTraced job after body := by
  obtain ⟨entries, composed⟩ := traced
  exact ⟨entries, composed.mono names⟩

/-- What a compilation agrees to about its bodies: they mention only what they meet. -/
def tracing (job : Job) : Contract where
  grows before after := before.names <+: after.names ∧
    ∃ more, after.bodies = before.bodies ++ more ∧ ∀ body ∈ more, BodyTraced job after body
  isRaw := fun _ => True
  fault := fun _ => True
  refl _ := ⟨List.prefix_rfl, [], by simp, by simp⟩
  trans := by
    rintro a b c ⟨names, more, early, traced⟩ ⟨namesLater, further, late, tracedLater⟩
    refine ⟨names.trans namesLater, more ++ further, by rw [late, early, List.append_assoc],
      fun body member => ?_⟩
    rcases List.mem_append.1 member with old | new
    · exact (traced body old).mono namesLater
    · exact tracedLater body new
  names grows := grows.1
  warned _ _ := ⟨List.prefix_rfl, [], by simp, by simp⟩
  malformed _ _ := trivial

section

variable {job : Job}

/-- The declaration of a schema mentions what it meets if the schemas inside do. -/
theorem declare_traces {inner : Inner}
    (traces : ∀ around isNamed v d, (tracing job).Gives (Met job isNamed v) d
      (inner around isNamed v)) (around : List Nat) (standIn : String) (draft : Draft)
    {schema : Nat} {entries : Entries} (found : job.graph.get? schema = some (.mapping entries)) :
    Ends draft (job.declare inner around standIn schema entries) (fun name after =>
      (tracing job).grows draft after ∧ after.nameOf? schema = some name) fun _ => True := by
  refine (tracing job).declare (fun title _ _ _ => ⟨List.prefix_append _ _, [], ?_⟩)
    fun title _ _ => ?_
  · simp [Draft.give]
  have asks : (tracing job).Asks (BodyMet job schema) job inner around entries
      (draft.give schema title) := fun v asked d _ => (traces around true v d).mono
    fun t after facts => ⟨facts.1, facts.2.weaken fun met reached =>
      Or.inl ⟨entries, v, found, asked, reached⟩⟩
  refine (Contract.body asks fun d _ => (traces around false (.node schema) d).mono
    fun t after facts => ⟨facts.1, facts.2.weaken fun _ reached => Or.inr reached⟩).mono ?_
  rintro body after ⟨⟨names, more, bodies, traced⟩, composed⟩
  refine ⟨names, (List.prefix_append _ _).trans names,
    more ++ [(schema, commentOf job.graph entries, body)], ?_, fun one member => ?_⟩
  · rw [Draft.finish, bodies, List.append_assoc]
    rfl
  · rcases List.mem_append.1 member with old | new
    · exact (traced one old).mono List.prefix_rfl
    · rw [List.mem_singleton.1 new]
      exact ⟨entries, composed.mono List.prefix_rfl⟩

/-- A value is compiled to a type that mentions what it meets. -/
theorem expression_traces (depth : Nat) (around : List Nat) (isNamed : Bool) (v : Value)
    (draft : Draft) :
    (tracing job).Gives (Met job isNamed v) draft (job.expression depth around isNamed v) := by
  induction depth generalizing around isNamed v draft with
  | zero => exact Ends.of_throw trivial
  | succ depth ih =>
    refine (tracing job).step (fun _ _ => trivial)
      (fun schema entries text hopped followed found titled asked =>
        ⟨.here followed found titled asked, declare_traces ih around "" draft found⟩)
      fun schema entries hopped followed found _ untitled => ?_
    have asks : (tracing job).Asks (Met job isNamed v) job (job.expression depth)
        (schema :: around) entries draft := fun w asked d _ =>
      (ih (schema :: around) true w d).mono fun t after facts =>
        ⟨facts.1, facts.2.weaken fun _ later => .inside followed found untitled asked later⟩
    exact Contract.written asks fun _ _ => trivial

end

/-! ## Declared names -/

/-- A free name has not been given. -/
theorem freeName_not_mem (draft : Draft) (title : String) :
    draft.freeName title ∉ draft.names.map (·.2) := by
  obtain ⟨n, given, free, _⟩ := Naming.firstFree_spec draft.isTaken id (draft.names.map (·.2)) title
    (fun n taken => by simpa [Draft.isTaken] using taken)
    fun m n same => Naming.withSuffix_injective title same
  rw [List.length_map] at given
  rw [Draft.freeName, given]
  intro member
  obtain ⟨entry, present, same⟩ := List.mem_map.1 member
  rw [Draft.isTaken, List.any_eq_false] at free
  exact free entry present (by simpa using same)

/-- Names are given once. -/
theorem Assigned.nodup_names {job : Job} {names : List (Nat × String)}
    (assigned : Assigned job names) : (names.map (·.2)).Nodup := by
  induction assigned with
  | nil => exact List.nodup_nil
  | @add names schema _ _ title _ _ _ _ _ _ ih =>
    rw [List.map_append, List.map_singleton, ← List.concat_eq_append]
    exact ih.concat (freeName_not_mem { names } title)

theorem names_of_composedBody {named : Nat → Prop} {draft : Draft} {job : Job} {entries : Entries}
    {body : DeclarationBody}
    (composed : ComposedBody (fun _ => True) named draft job entries body) {text : String}
    (mentioned : text ∈ body.names) : ∃ schema, named schema ∧ (schema, text) ∈ draft.names := by
  cases composed with
  | interface composed => exact TypeExpr.isName_of_mem_names composed mentioned
  | aliased composed => exact TypeExpr.isName_of_mem_names composed mentioned
  | constEnum =>
    obtain ⟨member, inside, mentions⟩ := List.mem_flatMap.1 mentioned
    obtain ⟨⟨name, value⟩, _, rfl⟩ := List.mem_map.1 inside
    cases value <;> cases mentions

/-- The draft of a whole compilation mentions what it meets. -/
theorem run_whole_traces {g : Graph} {definitions : List (String × Value)} {draft : Draft}
    (ran : (Job.run (wholeJob g definitions)).run {} = .ok ((), draft)) :
    ∀ body ∈ draft.bodies, BodyTraced (wholeJob g definitions) draft body := by
  have traces : Runs {} (Job.run (wholeJob g definitions)) fun _ after =>
      (tracing (wholeJob g definitions)).grows {} after := by
    have title : (rootEntries g).get? "title" = some (.str Api.topLevelTitle) := by
      simp [rootEntries, Entries.get?_cons]
    have found : (wholeJob g definitions).graph.get? (wholeJob g definitions).root =
        some (.mapping (rootEntries g)) := get?_root
    have declared := declare_traces (expression_traces (wholeJob g definitions).depth) [] "" {}
      found
    unfold Job.run
    rw [Graph.entries?_of_get? get?_root]
    dsimp only
    rw [title]
    exact Runs.of_bind fun name after ran => Runs.of_pure (declared.runs name after ran).1
  obtain ⟨_, more, bodies, traced⟩ := traces () draft ran
  intro body member
  rw [bodies] at member
  exact traced body member

/-- If the body of a declaration mentions the name of another, it meets the schema of that one. -/
theorem bodyMet_of_mem_names {g : Graph} {definitions : List (String × Value)} {source : Source}
    (made : wholeSource g definitions = .ok source) {d e : Declaration}
    (isDeclared : d ∈ source.declarations) (other : e ∈ source.declarations)
    (mentioned : e.name ∈ d.body.names) : BodyMet (wholeJob g definitions) d.schema e.schema := by
  obtain ⟨draft, ran, rfl⟩ := exists_draft made
  obtain ⟨_, isBody⟩ := exists_of_mem_declarations isDeclared
  obtain ⟨isNamed, _⟩ := exists_of_mem_declarations other
  obtain ⟨entries, composed⟩ := run_whole_traces ran _ isBody
  obtain ⟨schema, met, given⟩ := names_of_composedBody composed mentioned
  have same := List.inj_on_of_nodup_map (wholeDraft_of_run ran).assigned.nodup_names given isNamed
    rfl
  rw [← (Prod.mk.inj same).1]
  exact met

end Typewright.Compile
