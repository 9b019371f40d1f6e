import Typewright.Proofs.Compile.Grows
import Typewright.Proofs.Compile.Resolve

/-!
# The whole source of a description

All definitions are compiled together: the root schema is an object with a property for each of them,
and its declaration comes first. What the draft of such a run is like is gathered in
`Compile.WholeDraft`; the source is made of its declarations (`Compile.exists_wholeDraft`).
-/

namespace Typewright.Compile

/-- The job of compiling all definitions together. -/
def wholeJob (g : Graph) (definitions : List (String × Value)) : Job where
  graph := (addRoot g definitions).1
  root := g.size + 2
  options := { ignoreBounds := true }

theorem ofEntries_wholeOptions (g : Graph) :
    Options.ofEntries g wholeOptions = { ignoreBounds := true } := by
  simp [Options.ofEntries, Options.flag, Options.givenBanner, wholeOptions, Entries.get?_cons,
    Graph.isTruthy, Scalar.isTruthy, Value.bool, Value.str]

/-- Whether a schema has been given a name, if it is a titled mapping and no reference. -/
def NamedIfTitled (job : Job) (v : Value) (draft : Draft) : Prop :=
  ∀ schema entries text, v = .node schema → job.graph.get? schema = some (.mapping entries) →
    entries.has Schema.refKey = false → entries.get? "title" = some (.str text) →
    schema ∈ draft.names.map (·.1)

theorem NamedIfTitled.mono {job : Job} {v : Value} {before after : Draft}
    (named : NamedIfTitled job v before) (names : before.names <+: after.names) :
    NamedIfTitled job v after :=
  fun schema entries text same found plain titled =>
    (names.map _).subset (named schema entries text same found plain titled)

section

variable {g : Graph} {definitions : List (String × Value)}

theorem size_wholeJob (g : Graph) (definitions : List (String × Value)) :
    (wholeJob g definitions).graph.size = g.size + 3 := by
  rw [wholeJob, addRoot_eq]
  simp only [Graph.size_add]

theorem get?_root :
    (wholeJob g definitions).graph.get? (wholeJob g definitions).root =
      some (.mapping (rootEntries g)) :=
  (addRoot_spec g definitions).2.2.2.2

theorem get?_wholeJob (g : Graph) (definitions : List (String × Value)) {id : Nat}
    (bound : id < g.size) : (wholeJob g definitions).graph.get? id = g.get? id :=
  (addRoot_spec g definitions).2.1.get?_of_lt bound

theorem field?_wholeJob (g : Graph) (definitions : List (String × Value)) {id : Nat}
    (bound : id < g.size) (key : String) :
    (wholeJob g definitions).graph.field? (.node id) key = g.field? (.node id) key := by
  simp only [Graph.field?, Graph.entries?, Graph.node?, get?_wholeJob g definitions bound]

/-- The root of all definitions is no reference. -/
theorem field?_root (g : Graph) (definitions : List (String × Value)) :
    (wholeJob g definitions).graph.field? (.node (wholeJob g definitions).root) Schema.refKey =
      none := by
  rw [Graph.field?, Graph.entries?_of_get? get?_root]
  simp [rootEntries, Entries.get?_cons, Schema.refKey]

theorem entriesUnder_rootEntries :
    entriesUnder (wholeJob g definitions).graph (rootEntries g) "properties" =
      .ok (definitionEntries definitions) := by
  have held : (rootEntries g).get? "properties" = some (.node (g.size + 1)) := by
    simp [rootEntries, Entries.get?_cons]
  have read := Graph.entries?_of_get? (addRoot_spec g definitions).2.2.2.1
  rw [entriesUnder, held]
  dsimp only
  rw [wholeJob, read]

/-- The name of the root schema. -/
def rootName : String := "_Toplevelobject_"

theorem titleName_root :
    (wholeJob g definitions).titleName (rootEntries g) "" = .ok rootName := by
  have title : (rootEntries g).get? "title" = some (.str Api.topLevelTitle) := by
    simp [rootEntries, Entries.get?_cons]
  have proper : ¬ Api.topLevelTitle = "" := by decide
  have identifier : Identifier.ofText Api.topLevelTitle = rootName := by decide +kernel
  have named : ¬ rootName = "" := by decide
  unfold Job.titleName
  rw [title]
  simp only [Option.getD_some, Value.str, if_neg proper, identifier, if_neg named]

theorem freeName_empty (name : String) : Draft.freeName {} name = name := by
  simp [Draft.freeName, Naming.firstFree, Naming.withSuffix, Draft.isTaken]

/-- The root has the first name of a draft, and every definition that is a titled mapping and no
reference has one. -/
def NamesDefinitions (g : Graph) (definitions : List (String × Value)) (draft : Draft) : Prop :=
  [((wholeJob g definitions).root, rootName)] <+: draft.names ∧
    ∀ definition ∈ definitions, NamedIfTitled (wholeJob g definitions) definition.2 draft

theorem isInterface_rootEntries (g : Graph) : isInterface (rootEntries g) = true := by
  simp [isInterface, rootEntries, Entries.has, Entries.get?_cons, Value.str]

/-- The body of the root is an object with a property for each definition. -/
theorem body_root : Runs { names := [((wholeJob g definitions).root, rootName)] }
    ((wholeJob g definitions).body
      ((wholeJob g definitions).expression (wholeJob g definitions).depth) []
      (wholeJob g definitions).root (rootEntries g)) fun _ after =>
    NamesDefinitions g definitions after := by
  have innerGrows := expression_grows (wholeJob g definitions) (wholeJob g definitions).depth
  have eachNamed := object_each (NamedIfTitled (wholeJob g definitions)) innerGrows []
    { names := [((wholeJob g definitions).root, rootName)] } Visited.root get?_root
    (fun grows named => named.mono grows.names) fun v d visited result after ran schema entries
      text same found plain titled => by
        subst same
        obtain ⟨_, name, isNamed⟩ :=
          expression_names visited found plain titled result after ran
        exact List.mem_map_of_mem (nameOf?_eq_some isNamed)
  have objectGrows := object_grows innerGrows []
    { names := [((wholeJob g definitions).root, rootName)] } Visited.root get?_root
  unfold Job.body
  rw [if_pos (isInterface_rootEntries g)]
  refine Runs.of_bind fun t after ran => Runs.of_pure ⟨(objectGrows t after ran).names, ?_⟩
  intro definition member
  exact eachNamed t after ran _ entriesUnder_rootEntries (.str definition.1, definition.2)
    (List.mem_map_of_mem member)

theorem declare_root : Runs {} ((wholeJob g definitions).declare
    ((wholeJob g definitions).expression (wholeJob g definitions).depth) [] ""
    (wholeJob g definitions).root (rootEntries g)) fun _ after =>
    NamesDefinitions g definitions after := by
  unfold Job.declare
  have unnamed : ({} : Draft).nameOf? (wholeJob g definitions).root = none := rfl
  refine Runs.of_bind (Runs.of_get ?_)
  rw [unnamed]
  dsimp only
  refine Runs.of_bind (Runs.of_get (Runs.of_bind (Runs.of_lift fun asked given => ?_)))
  rw [titleName_root] at given
  cases given
  refine Runs.of_bind (Runs.of_modify ?_)
  rw [if_pos (Or.inl rfl), freeName_empty]
  refine Runs.of_bind (body_root.mono ?_)
  rintro body after ⟨names, each⟩
  exact Runs.of_bind (Runs.of_modify (Runs.of_pure ⟨names, each⟩))

/-- What compiling all definitions does. -/
theorem run_whole : Runs {} (Job.run (wholeJob g definitions)) fun _ after =>
    Grows (wholeJob g definitions) {} after ∧ NamesDefinitions g definitions after := by
  have title : (rootEntries g).get? "title" = some (.str Api.topLevelTitle) := by
    simp [rootEntries, Entries.get?_cons]
  have declareGrows := declare_grows
    (expression_grows (wholeJob g definitions) (wholeJob g definitions).depth) [] "" {}
    Visited.root get?_root (Or.inl ⟨_, title⟩)
  unfold Job.run
  rw [Graph.entries?_of_get? get?_root]
  dsimp only
  rw [title]
  exact Runs.of_bind fun name after ran =>
    Runs.of_pure ⟨(declareGrows.runs name after ran).1, declare_root name after ran⟩

/-- The source of a description is made of the draft of a run. -/
theorem wholeSource_eq (g : Graph) (definitions : List (String × Value)) :
    wholeSource g definitions = ((Job.run (wholeJob g definitions)).run {} >>= fun made =>
      .ok ⟨"", made.2.declarations, made.2.warnings⟩) := by
  rw [wholeSource]
  change Compile.source (addRoot g definitions).1 (addRoot g definitions).2
    (.ofEntries (addRoot g definitions).1 wholeOptions) = _
  rw [(addRoot_spec g definitions).1, ofEntries_wholeOptions, Compile.source]
  rfl

theorem exists_draft {source : Source} (made : wholeSource g definitions = .ok source) :
    ∃ draft, (Job.run (wholeJob g definitions)).run {} = .ok ((), draft) ∧
      source = ⟨"", draft.declarations, draft.warnings⟩ := by
  rw [wholeSource_eq] at made
  obtain ⟨both, ran, made⟩ := exists_of_bind_ok made
  cases made
  exact ⟨both.2, ran, rfl⟩

end

/-- What the root of all definitions leads to: itself, the two mappings with the definitions, and
what the definitions lead to. -/
theorem cases_of_reached_whole {g : Graph} {definitions : List (String × Value)} (closed : g.Closed)
    (inside : ∀ definition ∈ definitions, g.Inside definition.2) {place : Nat}
    (reached : Reached (wholeJob g definitions) (.node place)) :
    place = g.size + 2 ∨ place = g.size ∨ place = g.size + 1 ∨
      ∃ definition ∈ definitions, ∃ c, definition.2 = .node c ∧
        Relation.ReflTransGen (Search.Leads g.successors) c place := by
  obtain ⟨_, keeps, asDefinitions, asProperties, asRoot⟩ := addRoot_spec g definitions
  have inDefinitions : ∀ {holder next : Nat},
      (addRoot g definitions).1.get? holder = some (.mapping (definitionEntries definitions)) →
      Search.Leads (addRoot g definitions).1.successors holder next →
      ∃ definition ∈ definitions, ∃ c, definition.2 = .node c ∧
        Relation.ReflTransGen (Search.Leads g.successors) c next := by
    intro holder next found leads
    rw [Search.Leads, Graph.successors, found] at leads
    obtain ⟨v, held, isNode⟩ := List.mem_filterMap.1 leads
    obtain ⟨entry, inEntries, rfl⟩ := List.mem_map.1 held
    obtain ⟨definition, member, rfl⟩ := List.mem_map.1 inEntries
    exact ⟨definition, member, next, Value.node?_eq_some_iff.1 isNode, .refl⟩
  have path := reached place rfl
  induction path with
  | refl => exact Or.inl rfl
  | @tail before next path leads ih =>
    have reachedBefore : Reached (wholeJob g definitions) (.node before) := by
      intro id same
      cases same
      exact path
    change next ∈ (addRoot g definitions).1.successors before at leads
    rcases ih reachedBefore with rfl | rfl | rfl | ⟨definition, member, c, isNode, pathInside⟩
    · rw [Graph.successors, asRoot] at leads
      have both : next = g.size ∨ next = g.size + 1 := by
        simpa [Node.successors, Node.values, rootEntries, Value.node?, Value.str, Value.bool,
          eq_comm] using leads
      exact Or.inr (both.imp id Or.inl)
    · exact Or.inr (Or.inr (Or.inr (inDefinitions asDefinitions leads)))
    · exact Or.inr (Or.inr (Or.inr (inDefinitions asProperties leads)))
    · -- a container of a definition leads to the same in the larger graph
      have bound : before < g.size := by
        rcases pathInside.cases_tail with rfl | ⟨earlier, _, step⟩
        · exact inside definition member before (by rw [isNode]; rfl)
        · exact closed earlier before step
      rw [keeps.successors_of_lt bound] at leads
      exact Or.inr (Or.inr (Or.inr ⟨definition, member, c, isNode, pathInside.tail leads⟩))

/-! ## Declarations and names -/

/-- The declarations of a draft are made of its names and bodies. -/
theorem exists_of_mem_declarations {draft : Draft} {d : Declaration}
    (member : d ∈ draft.declarations) :
    (d.schema, d.name) ∈ draft.names ∧ (d.schema, d.comment, d.body) ∈ draft.bodies := by
  obtain ⟨entry, isEntry, made⟩ := List.mem_filterMap.1 member
  obtain ⟨body, found, rfl⟩ := Option.map_eq_some_iff.1 made
  have same : body.1 = entry.1 := by simpa using List.find?_some found
  exact ⟨isEntry, by simpa [← same] using List.mem_of_find?_eq_some found⟩

/-- If every name has a body, the declarations are those of the names, in order. -/
theorem declarations_of_complete {draft : Draft}
    (complete : ∀ schema ∈ draft.names.map (·.1), schema ∈ draft.bodies.map (·.1)) :
    draft.declarations.map (fun d => (d.schema, d.name)) = draft.names := by
  rw [Draft.declarations]
  generalize draft.names = names at complete
  induction names with
  | nil => rfl
  | cons entry names ih =>
    have later := ih fun schema member => complete schema (List.mem_cons_of_mem _ member)
    obtain ⟨body, member, same⟩ := List.mem_map.1 (complete entry.1 List.mem_cons_self)
    cases found : draft.bodies.find? (·.1 == entry.1) with
    | none =>
      have missing := List.find?_eq_none.1 found body member
      simp [same] at missing
    | some body =>
      rw [List.filterMap_cons]
      simp only [found, Option.map_some, List.map_cons]
      rw [later]

/-- The draft of a whole compilation. -/
structure WholeDraft (g : Graph) (definitions : List (String × Value)) (draft : Draft) : Prop where
  assigned : Assigned (wholeJob g definitions) draft.names
  bodies : ∀ body ∈ draft.bodies, BodyFits (wholeJob g definitions) draft body
  complete : ∀ schema ∈ draft.names.map (·.1), schema ∈ draft.bodies.map (·.1)
  rootFirst : [((wholeJob g definitions).root, rootName)] <+: draft.names
  each : ∀ definition ∈ definitions, NamedIfTitled (wholeJob g definitions) definition.2 draft

theorem wholeDraft_of_run {g : Graph} {definitions : List (String × Value)} {draft : Draft}
    (ran : (Job.run (wholeJob g definitions)).run {} = .ok ((), draft)) :
    WholeDraft g definitions draft := by
  obtain ⟨grows, rootFirst, each⟩ := run_whole () draft ran
  obtain ⟨more, bodies, fits⟩ := grows.bodies
  refine ⟨grows.assigned .nil, fun body member => fits body ?_, fun schema member => ?_,
    rootFirst, each⟩
  · rw [bodies] at member
    exact member
  · rcases grows.complete rfl schema member with none | done
    · cases none
    · exact done

theorem exists_wholeDraft {g : Graph} {definitions : List (String × Value)} {source : Source}
    (made : wholeSource g definitions = .ok source) :
    ∃ draft, WholeDraft g definitions draft ∧
      source = ⟨"", draft.declarations, draft.warnings⟩ := by
  obtain ⟨draft, ran, same⟩ := exists_draft made
  exact ⟨draft, wholeDraft_of_run ran, same⟩

theorem Assigned.nodup {job : Job} {names : List (Nat × String)} (assigned : Assigned job names) :
    (names.map (·.1)).Nodup := by
  induction assigned with
  | nil => exact List.nodup_nil
  | add _ unnamed _ _ _ _ ih =>
    rw [List.map_append, List.nodup_append]
    refine ⟨ih, by simp, ?_⟩
    rintro schema member other last rfl
    rw [List.map_singleton, List.mem_singleton] at last
    rw [last] at member
    exact unnamed member

/-- Unless definitions are declared without being reached, every name is that of a reached mapping
with a text as title. -/
theorem Assigned.titled {job : Job} {names : List (Nat × String)} (assigned : Assigned job names)
    (reachedOnly : job.options.declareUnreachable = false) {entry : Nat × String}
    (member : entry ∈ names) : ∃ entries text, Reached job (.node entry.1) ∧
      job.graph.get? entry.1 = some (.mapping entries) ∧
      entries.get? "title" = some (.str text) := by
  induction assigned with
  | nil => cases member
  | add _ _ visited found titled _ ih =>
    rcases List.mem_append.1 member with old | new
    · exact ih old
    · rw [List.mem_singleton.1 new]
      rcases titled with ⟨text, held⟩ | unreached
      · exact ⟨_, text, visited.reached, found, held⟩
      · rw [reachedOnly] at unreached
        cases unreached

/-- A free name is kept as it is. -/
theorem freeName_of_not_taken {names : List (Nat × String)} {name : String}
    (free : ∀ entry ∈ names, entry.2 ≠ name) : Draft.freeName { names } name = name := by
  have notTaken : Draft.isTaken { names } name = false := by
    rw [Draft.isTaken, List.any_eq_false]
    intro entry member
    simpa using free entry member
  rw [Draft.freeName, Naming.firstFree, List.range_succ_eq_map, List.map_cons, List.find?_cons]
  simp [Naming.withSuffix, notTaken]

/-- The name that a title asks for which is a name already. -/
theorem titleName_eq_of_isName {entries : Entries} {name : String}
    (titled : entries.get? "title" = some (.str name)) (isName : Naming.IsName name) (job : Job)
    (standIn : String) : job.titleName entries standIn = .ok name := by
  unfold Job.titleName
  rw [titled]
  simp only [Option.getD_some, Value.str, if_neg isName.inhabited,
    Identifier.ofText_eq_self isName.settled]

theorem titleName_of_isName {job : Job} {entries : Entries} {standIn name title : String}
    (titled : entries.get? "title" = some (.str name)) (isName : Naming.IsName name)
    (asked : job.titleName entries standIn = .ok title) : title = name := by
  rw [titleName_eq_of_isName titled isName] at asked
  cases asked
  rfl

end Typewright.Compile
