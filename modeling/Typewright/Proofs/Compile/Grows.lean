import Typewright.Proofs.Compile.Parts
import Typewright.Proofs.Compile.Reached
import Typewright.Proofs.Compile.Resolve

/-!
# How a draft grows

Every step of a compilation only adds to its draft (`Compile.Grows`): names at the end, each for a
schema without one and the first free form of what the schema asks for (`Compile.Assigned`), bodies
at the end, each built of what the schema holds and of names already given (`Compile.BodyFits`), and
a body for every name. There is one lemma for each function of the compiler; the functions for the
parts of a schema assume as much of the function for the schemas inside (`Compile.InnerGrows`), and
`Compile.expression_grows` ties the knot.
-/

namespace Typewright.Compile

/-- Names as a compilation gives them: each for a visited mapping without a name, and the first free
form of the one that it asks for. -/
inductive Assigned (job : Job) : List (Nat × String) → Prop
  | nil : Assigned job []
  | add {names : List (Nat × String)} {schema : Nat} {entries : Entries} {standIn title : String}
      (earlier : Assigned job names) (unnamed : schema ∉ names.map (·.1))
      (visited : Visited job (.node schema))
      (found : job.graph.get? schema = some (.mapping entries))
      (titled : (∃ text, entries.get? "title" = some (.str text)) ∨
        job.options.declareUnreachable = true)
      (asked : job.titleName entries standIn = .ok title) :
      Assigned job (names ++ [(schema, Draft.freeName { names } title)])

/-- A text that a visited schema gives for its type. -/
def IsRawText (job : Job) (text : String) : Prop :=
  ∃ schema entries v, Visited job (.node schema) ∧
    job.graph.get? schema = some (.mapping entries) ∧ entries.get? "tsType" = some v ∧
    text = Display.value job.graph v

/-- A type built of raw texts of visited schemas and of names given in a draft. -/
def Fits (job : Job) (draft : Draft) (t : TypeExpr) : Prop :=
  t.Built (IsRawText job) fun text => ∃ schema, (schema, text) ∈ draft.names

/-- What the body of a schema's declaration may be. -/
inductive FitsBody (job : Job) (draft : Draft) (entries : Entries) : DeclarationBody → Prop
  | interface {properties : List (PropertyHead × TypeExpr)} {index : List TypeExpr}
      (fits : Fits job draft (.object properties index)) :
      FitsBody job draft entries (.interface (.object properties index))
  | constEnum {names values : List Value} {choices : Value}
      (named : job.listUnder? entries "tsEnumNames" = some names)
      (given : entries.get? "enum" = some choices)
      (listed : elements job.graph choices = .ok values) :
      FitsBody job draft entries (.constEnum (job.enumMembers names values))
  | aliased {t : TypeExpr} (fits : Fits job draft t) : FitsBody job draft entries (.alias t)

/-- A finished body of a visited schema, with its comment. -/
def BodyFits (job : Job) (draft : Draft) (body : Nat × Comment × DeclarationBody) : Prop :=
  ∃ entries, Visited job (.node body.1) ∧ job.graph.get? body.1 = some (.mapping entries) ∧
    body.2.1 = commentOf job.graph entries ∧ FitsBody job draft entries body.2.2

/-- What a step of a compilation does to its draft. -/
structure Grows (job : Job) (before after : Draft) : Prop where
  names : before.names <+: after.names
  assigned : Assigned job before.names → Assigned job after.names
  bodies : ∃ more, after.bodies = before.bodies ++ more ∧ ∀ body ∈ more, BodyFits job after body
  complete : job.options.declareReferenced = true → ∀ schema ∈ after.names.map (·.1),
    schema ∈ before.names.map (·.1) ∨ schema ∈ after.bodies.map (·.1)

section

variable {job : Job} {before between after : Draft}

theorem Fits.mono {t : TypeExpr} (fits : Fits job before t) (names : before.names <+: after.names) :
    Fits job after t :=
  TypeExpr.Built.mono fits (fun _ given => given) fun _ ⟨schema, given⟩ =>
    ⟨schema, names.subset given⟩

theorem FitsBody.mono {entries : Entries} {body : DeclarationBody}
    (fits : FitsBody job before entries body) (names : before.names <+: after.names) :
    FitsBody job after entries body := by
  cases fits with
  | interface fits => exact .interface (fits.mono names)
  | constEnum named given listed => exact .constEnum named given listed
  | aliased fits => exact .aliased (fits.mono names)

theorem BodyFits.mono {body : Nat × Comment × DeclarationBody} (fits : BodyFits job before body)
    (names : before.names <+: after.names) : BodyFits job after body := by
  obtain ⟨entries, visited, found, comment, inner⟩ := fits
  exact ⟨entries, visited, found, comment, inner.mono names⟩

namespace Grows

theorem refl (job : Job) (draft : Draft) : Grows job draft draft :=
  ⟨List.prefix_rfl, id, ⟨[], by simp, by simp⟩, fun _ _ member => Or.inl member⟩

theorem trans (first : Grows job before between) (second : Grows job between after) :
    Grows job before after := by
  obtain ⟨more, early, earlyFits⟩ := first.bodies
  obtain ⟨further, late, lateFits⟩ := second.bodies
  refine ⟨first.names.trans second.names, fun assigned => second.assigned (first.assigned assigned),
    ⟨more ++ further, by rw [late, early, List.append_assoc], fun body member => ?_⟩,
    fun declares schema member => ?_⟩
  · rcases List.mem_append.1 member with old | new
    · exact (earlyFits body old).mono second.names
    · exact lateFits body new
  · rcases second.complete declares schema member with old | done
    · rcases first.complete declares schema old with older | doneEarlier
      · exact Or.inl older
      · refine Or.inr ?_
        rw [late, List.map_append]
        exact List.mem_append_left _ doneEarlier
    · exact Or.inr done

theorem warn (job : Job) (draft : Draft) (warnings : List Warning) :
    Grows job draft { draft with warnings } :=
  ⟨List.prefix_rfl, id, ⟨[], by simp, by simp⟩, fun _ _ member => Or.inl member⟩

end Grows

end

/-! ## The parts of a schema -/

/-- What a compilation agrees to about its draft: it grows, with raw texts of visited schemas. -/
def growth (job : Job) : Contract where
  grows := Grows job
  isRaw := IsRawText job
  fault := fun _ => True
  refl := Grows.refl job
  trans := Grows.trans
  names := Grows.names
  warned := Grows.warn job
  malformed := fun _ _ => trivial

section

variable {job : Job} {draft : Draft}

theorem fits_iff_composed {t : TypeExpr} :
    Fits job draft t ↔ Composed (IsRawText job) (fun _ => True) draft t := by
  constructor
  · exact fun fits => TypeExpr.Built.mono fits (fun _ given => given)
      fun _ ⟨schema, given⟩ => ⟨schema, trivial, given⟩
  · exact fun composed => TypeExpr.Built.mono composed (fun _ given => given)
      fun _ ⟨schema, _, given⟩ => ⟨schema, given⟩

theorem fitsBody_of_composed {entries : Entries} {body : DeclarationBody}
    (composed : ComposedBody (IsRawText job) (fun _ => True) draft job entries body) :
    FitsBody job draft entries body := by
  cases composed with
  | interface composed => exact .interface (fits_iff_composed.2 composed)
  | constEnum listed given spelled => exact .constEnum listed given spelled
  | aliased composed => exact .aliased (fits_iff_composed.2 composed)

end

/-- What is taken for a schema when a visited one is written out is visited. -/
theorem Visited.of_asked {job : Job} {schema : Nat} {entries : Entries} {v : Value}
    (visited : Visited job (.node schema))
    (found : job.graph.get? schema = some (.mapping entries))
    (asked : Asked job.graph entries v) : Visited job v := by
  have inside : ∀ key, key ∈ ["properties", "patternProperties"] → ∀ held,
      (entries.get? key).bind job.graph.entries? = some held → v ∈ held.map (·.2) →
      Visited job v := by
    intro key several held read member
    obtain ⟨holder, there, read⟩ := Option.bind_eq_some_iff.1 read
    have given : entriesUnder job.graph entries key = .ok held := by
      rw [entriesUnder, there]
      dsimp only
      rw [read]
    exact .entry visited found several given member
  rcases asked with child | further | ⟨s, rfl⟩
  · rcases Schema.mem_children_iff.1 child with ⟨declared, read, property⟩ | ⟨items, read, item⟩ |
      ⟨held, _⟩ | ⟨held, _⟩ | ⟨key, composes, members, read, member⟩
    · exact inside "properties" (by simp) declared read property
    · exact .listed visited found (by simp) read item
    · exact .under visited found (by simp) held
    · exact .under visited found (by simp) held
    · exact .listed visited found (List.mem_cons_of_mem _ composes) read member
  · rcases Schema.mem_furtherChildren_iff.1 further with ⟨patterns, read, pattern⟩ | ⟨_, held⟩
    · exact inside "patternProperties" (by simp) patterns read pattern
    · exact .under visited found (by simp) held
  · exact .scalar s

/-- The function for the schemas inside only adds to the draft, and its types fit. -/
def InnerGrows (job : Job) (inner : Inner) : Prop :=
  ∀ around named v draft, Visited job v → Runs draft (inner around named v) fun t after =>
    Grows job draft after ∧ Fits job after t

section

variable {job : Job} {inner : Inner} {schema : Nat} {entries : Entries}

/-- The function for the schemas inside does as agreed. -/
theorem InnerGrows.gives (innerGrows : InnerGrows job inner) {around : List Nat} {named : Bool}
    {v : Value} {draft : Draft} (visited : Visited job v) :
    (growth job).Gives (fun _ => True) draft (inner around named v) :=
  ⟨(innerGrows around named v draft visited).mono fun _ _ ⟨grows, fits⟩ =>
    ⟨grows, fits_iff_composed.1 fits⟩, fun _ _ => trivial⟩

section

variable (innerGrows : InnerGrows job inner) (around : List Nat) (draft : Draft)
variable (visited : Visited job (.node schema))
variable (found : job.graph.get? schema = some (.mapping entries))
include innerGrows visited found

theorem InnerGrows.asks :
    (growth job).Asks (fun _ => True) job inner around entries draft :=
  fun _ asked _ _ => innerGrows.gives (visited.of_asked found asked)

theorem indexTypes_grows : Runs draft (job.indexTypes inner around entries) fun ts after =>
    Grows job draft after ∧ ∀ t ∈ ts, Fits job after t :=
  (Contract.indexTypes (innerGrows.asks around draft visited found)).runs.mono
    fun _ _ ⟨grows, composed⟩ => ⟨grows, fun t member => fits_iff_composed.2 (composed t member)⟩

theorem object_grows : Runs draft (job.object inner around entries) fun _ after =>
    Grows job draft after :=
  (Contract.object (innerGrows.asks around draft visited found)).runs.mono
    fun _ _ facts => facts.1

theorem body_grows : Runs draft (job.body inner around schema entries) fun body after =>
    Grows job draft after ∧ FitsBody job after entries body :=
  (Contract.body (innerGrows.asks around draft visited found)
    fun _ _ => innerGrows.gives visited).runs.mono
      fun _ _ ⟨grows, composed⟩ => ⟨grows, fitsBody_of_composed composed⟩

end

end

/-! ## Declarations -/

section

variable {job : Job} {inner : Inner} {schema : Nat} {entries : Entries}

/-- A body that is finished after its name was given. -/
theorem Grows.finish {draft after : Draft} {title : String} {body : DeclarationBody}
    (assigned : Assigned job draft.names → Assigned job (draft.give schema title).names)
    (grows : Grows job (draft.give schema title) after)
    (fits : BodyFits job after (schema, commentOf job.graph entries, body)) :
    Grows job draft (after.finish schema (commentOf job.graph entries) body) := by
  obtain ⟨more, bodies, eachFits⟩ := grows.bodies
  refine ⟨(List.prefix_append _ _).trans grows.names,
    fun earlier => grows.assigned (assigned earlier),
    ⟨more ++ [(schema, commentOf job.graph entries, body)], ?_, fun one member => ?_⟩,
    fun declares other member => ?_⟩
  · rw [Draft.finish, bodies, List.append_assoc]
    rfl
  · rcases List.mem_append.1 member with old | new
    · exact (eachFits one old).mono List.prefix_rfl
    · rw [List.mem_singleton.1 new]
      exact fits.mono List.prefix_rfl
  · simp only [Draft.finish, List.map_append, List.mem_append]
    rcases grows.complete declares other member with early | done
    · rw [Draft.give, List.map_append, List.mem_append] at early
      exact early.imp id fun same => Or.inr (by simpa using same)
    · exact Or.inr (Or.inl done)

/-- Declaring a schema: afterwards it has the name that is given. -/
theorem declare_grows (innerGrows : InnerGrows job inner) (around : List Nat) (standIn : String)
    (draft : Draft) (visited : Visited job (.node schema))
    (found : job.graph.get? schema = some (.mapping entries))
    (titled : (∃ text, entries.get? "title" = some (.str text)) ∨
      job.options.declareUnreachable = true) :
    Ends draft (job.declare inner around standIn schema entries) (fun name after =>
      Grows job draft after ∧ after.nameOf? schema = some name) fun _ => True := by
  have assigned : ∀ title, draft.nameOf? schema = none →
      job.titleName entries standIn = .ok title → Assigned job draft.names →
      Assigned job (draft.give schema title).names := fun title missing asked earlier =>
    .add earlier (nameOf?_eq_none missing) visited found titled asked
  refine (growth job).declare (fun title missing asked undeclared => ?_)
    fun title missing asked => ?_
  · refine ⟨List.prefix_append _ _, assigned title missing asked, ⟨[], by simp [Draft.give],
      by simp⟩, fun declares => ?_⟩
    exact absurd (Or.inr declares) undeclared
  · refine ⟨(body_grows innerGrows around _ visited found).mono ?_, fun _ _ => trivial⟩
    rintro body after ⟨grows, fits⟩
    exact ⟨grows.names,
      grows.finish (assigned title missing asked) ⟨entries, visited, found, rfl, fits⟩⟩

/-- The type of a value that stands for a schema. -/
theorem step_grows (innerGrows : InnerGrows job inner) : InnerGrows job (job.step inner) := by
  intro around isNamed v draft visited
  have gives : (growth job).Gives (fun _ => True) draft (job.step inner around isNamed v) := by
    refine (growth job).step (fun _ _ => trivial)
      (fun schema entries text hopped followed found titled _ => ⟨trivial, ?_⟩)
      fun schema entries hopped followed found _ _ => ?_
    · exact declare_grows innerGrows around "" draft (visited.target followed) found
        (Or.inl ⟨text, titled⟩)
    · exact Contract.written (innerGrows.asks _ draft (visited.target followed) found)
        fun v held => ⟨schema, entries, v, visited.target followed, found, held, rfl⟩
  exact gives.runs.mono fun _ _ ⟨grows, composed⟩ => ⟨grows, fits_iff_composed.2 composed⟩

/-- The type of a value that stands for a schema, up to any depth. -/
theorem expression_grows (job : Job) (depth : Nat) : InnerGrows job (job.expression depth) := by
  induction depth with
  | zero => exact fun _ _ _ _ _ => Runs.of_throw
  | succ depth ih => exact step_grows ih

/-- A titled mapping that is no reference is asked for by name and has one afterwards. -/
theorem expression_names {depth : Nat} {around : List Nat} {draft : Draft} {text : String}
    (visited : Visited job (.node schema))
    (found : job.graph.get? schema = some (.mapping entries))
    (plain : entries.has Schema.refKey = false)
    (titled : entries.get? "title" = some (.str text)) :
    Runs draft (job.expression depth around true (.node schema)) fun _ after =>
      Grows job draft after ∧ ∃ name, after.nameOf? schema = some name := by
  cases depth with
  | zero => exact Runs.of_throw
  | succ depth =>
    have noReference := (Graph.field?_of_get? found Schema.refKey).trans
      (Entries.get?_eq_none_iff_not_has.2 plain)
    change Runs draft (job.step (job.expression depth) around true (.node schema)) _
    rw [step_of_titled (follow_of_no_reference noReference) found titled]
    refine Runs.of_bind ((declare_grows (expression_grows job depth) around "" draft visited found
      (Or.inl ⟨text, titled⟩)).runs.mono ?_)
    rintro name after ⟨grows, isNamed⟩
    exact Runs.of_pure ⟨grows, name, isNamed⟩

/-- What the function for the schemas inside does for each property is done after all. -/
theorem object_each (extra : Value → Draft → Prop) (innerGrows : InnerGrows job inner)
    (around : List Nat) (draft : Draft) (visited : Visited job (.node schema))
    (found : job.graph.get? schema = some (.mapping entries))
    (stays : ∀ {v before after}, Grows job before after → extra v before → extra v after)
    (each : ∀ v d, Visited job v → Runs d (inner around true v) fun _ after => extra v after) :
    Runs draft (job.object inner around entries) fun _ after =>
      ∀ declared, entriesUnder job.graph entries "properties" = .ok declared →
        ∀ entry ∈ declared, extra entry.2 after := by
  rw [Job.object]
  refine Runs.of_bind (Runs.of_lift fun required _ => ?_)
  refine Runs.of_bind (Runs.of_lift fun declared given => ?_)
  have inside : ∀ v ∈ declared.map (·.2), Visited job v :=
    fun _ member => .entry visited found (by simp) given member
  refine Runs.of_bind ((Runs.of_mapM (Grows job)
    (fun d (entry : Scalar × Value) _ => extra entry.2 d) (Grows.refl job) Grows.trans
    (fun grows done => stays grows done) _ declared fun entry member d _ => ?_).mono ?_)
  · refine Runs.of_bind (Runs.of_lift fun head _ => ?_)
    have visitedInside := inside entry.2 (List.mem_map_of_mem member)
    exact Runs.of_bind fun t after ran => Runs.of_pure
      ⟨(innerGrows around true entry.2 d visitedInside t after ran).1,
        each entry.2 d visitedInside t after ran⟩
  · rintro properties between ⟨_, all⟩
    refine Runs.of_bind ((indexTypes_grows innerGrows around between visited found).mono ?_)
    rintro index after ⟨growsLater, _⟩
    refine Runs.of_pure fun other same entry member => ?_
    rw [given] at same
    cases same
    obtain ⟨_, _, done⟩ := exists_partner_of_mem all member
    exact stays growsLater done

end

end Typewright.Compile
