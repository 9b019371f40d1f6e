import Typewright.Proofs.Compile.Chains
import Typewright.Proofs.Compile.Lockstep
import Typewright.Proofs.Compile.Renumbered

/-!
# Definitions compiled alone

A definition can be compiled on its own: what it leads to is written out, and other definitions are
mentioned by their titles instead of being declared (`Job.alone`). In a compilation of all definitions
together one is declared wherever it is mentioned first, in the middle of others. If definitions
stand apart, neither the names given before nor the schemas around make a difference to it. So what
is declared there is what is made of it alone (`Compile.agreesTo`), as long as no body of a
definition is refused alone and the depth suffices (`Compile.run_settles`).
-/

namespace Typewright.Compile

open Schema Standalone Text

/-! ## References in any order of the definitions -/

section

variable {g : Graph} {definitions listed : List (String × Value)}
variable (apart : Apart g definitions)
include apart

/-- References lead to the same in any order of the definitions. -/
theorem follow_perm (same : listed.Perm definitions) {i : String} {p id : Nat}
    (member : (i, .node p) ∈ definitions) (path : Within g p id) :
    follow (wholeJob g listed).graph (.node (wholeJob g listed).root) (.node id) =
      follow (wholeJob g definitions).graph (.node (wholeJob g definitions).root) (.node id) := by
  have inListed := follow_inside (apart.perm same).toLinked (same.mem_iff.2 member) path
  rcases follow_inside apart.toLinked member path with ⟨none, ends⟩ | ⟨j, q, first, held, ends⟩
  · rcases inListed with ⟨_, others⟩ | ⟨_, _, _, held, _⟩
    · rw [ends, others]
    · rw [none] at held
      cases held
  · rcases inListed with ⟨none, _⟩ | ⟨k, r, second, also, others⟩
    · rw [none] at held
      cases held
    · rw [held] at also
      have text : definitionsPointer ++ j = definitionsPointer ++ k := by
        injection also with also
        injection also with also
        injection also
      have ids : j = k := (String.append_right_inj _).1 text
      have equal := List.inj_on_of_nodup_map apart.ids first (same.mem_iff.1 second) ids
      rw [ends, others, (Prod.mk.inj equal).2]

end

/-! ## Compiling alone -/

/-- Mentions a schema by the name that its title asks for. -/
def Job.mention (job : Job) : Ask :=
  fun _ standIn _ entries => liftM (job.titleName entries standIn)

/-- The type of a value that stands for a schema, up to a depth. Schemas with a title are mentioned
and not declared, and references lead where they are said to. -/
def Job.alone (job : Job) (chase : Value → Except Error (Value × Bool)) : Nat → Inner
  | 0 => fun _ _ _ => throw .endless
  | depth + 1 => job.stepVia chase job.mention (job.alone chase depth)

/-- The job of compiling the schemas of a graph one by one. -/
def loneJob (g : Graph) : Job where
  graph := g
  root := g.size
  options := { ignoreBounds := true }

/-- The type of what is in a definition, up to a depth. -/
def alone (g : Graph) (definitions : List (String × Value)) : Nat → Inner :=
  (loneJob g).alone
    (follow (wholeJob g definitions).graph (.node (wholeJob g definitions).root))

/-- The body of the declaration of a definition that is compiled alone. -/
def bodyAlone (g : Graph) (definitions : List (String × Value)) (place : Nat) (entries : Entries) :
    Except Error DeclarationBody :=
  (((loneJob g).body (alone g definitions (wholeJob g definitions).depth) [] place entries).run
    {}).map (·.1)

/-- The body of a definition is refused when it is compiled alone. -/
def Refused (g : Graph) (definitions : List (String × Value)) : Prop :=
  ∃ i place entries e, (i, .node place) ∈ definitions ∧ g.get? place = some (.mapping entries) ∧
    bodyAlone g definitions place entries = .error e

/-- A step has one outcome, whatever draft it is run from. -/
def Steady {α : Type} (step : Compiling α) (outcome : Except Error α) : Prop :=
  ∀ draft, (step.run draft).map (·.1) = outcome

namespace Steady

variable {α β : Type} {step : Compiling α} {next : α → Compiling β}

theorem pure (a : α) : Steady (Pure.pure a) (.ok a) := fun _ => rfl

theorem throw (e : Error) : Steady (MonadExcept.throw e : Compiling α) (.error e) := fun _ => rfl

theorem lift (outcome : Except Error α) : Steady (liftM outcome) outcome := by
  intro draft
  cases outcome <;> rfl

theorem bind_ok {a : α} {outcome : Except Error β} (first : Steady step (.ok a))
    (later : Steady (next a) outcome) : Steady (step >>= next) outcome := by
  intro draft
  have here := first draft
  rw [StateT.run_bind]
  cases ran : step.run draft with
  | error e =>
    rw [ran] at here
    cases here
  | ok both =>
    rw [ran] at here
    cases here
    exact later both.2

theorem bind_error {e : Error} (first : Steady step (.error e)) :
    Steady (step >>= next) (.error e) := by
  intro draft
  have here := first draft
  rw [StateT.run_bind]
  cases ran : step.run draft with
  | error other =>
    rw [ran] at here
    cases here
    rfl
  | ok both =>
    rw [ran] at here
    cases here

end Steady

/-! ## Settled drafts -/

/-- A draft in the middle of a compilation of all definitions. The names are those of the root and of
definitions, which have their titles, and the bodies of definitions are what is made of them alone.
Some definitions are being declared: they have names already. -/
structure Settled (g : Graph) (definitions : List (String × Value)) (opened : List Nat)
    (draft : Draft) : Prop where
  names : ∀ entry ∈ draft.names, entry = (g.size + 2, rootName) ∨
    ∃ i entries, (i, .node entry.1) ∈ definitions ∧ g.get? entry.1 = some (.mapping entries) ∧
      entries.get? "title" = some (.str entry.2)
  bodies : ∀ body ∈ draft.bodies, body.1 = g.size + 2 ∨
    ∃ entries, g.get? body.1 = some (.mapping entries) ∧ body.2.1 = commentOf g entries ∧
      bodyAlone g definitions body.1 entries = .ok body.2.2
  named : ∀ place ∈ opened, place ∈ draft.names.map (·.1)

/-- A step of a compilation of all definitions does what another does for a definition alone. It
gives the same and leaves the draft settled. If it fails, so does the other, unless the depth does
not suffice or the body of a definition is refused. -/
def agreeing (g : Graph) (definitions : List (String × Value)) (opened : List Nat) : Lockstep where
  related x y := ∀ draft, Settled g definitions opened draft → Ends draft y
    (fun a after => Steady x (.ok a) ∧ Settled g definitions opened after)
    fun e => e = .endless ∨ Refused g definitions ∨ ∃ other, Steady x (.error other)
  pure a draft settled := Ends.of_pure ⟨.pure a, settled⟩
  throw e draft _ := Ends.of_throw (Or.inr (Or.inr ⟨e, .throw e⟩))
  bind := by
    intro α β x y next other first later draft settled
    refine Ends.of_bind ((first draft settled).imp ?_ ?_)
    · intro a between both
      obtain ⟨steady, still⟩ := both
      refine (later a between still).imp ?_ ?_
      · intro b after both
        exact ⟨steady.bind_ok both.1, both.2⟩
      · intro e failed
        refine failed.imp_right (Or.imp_right ?_)
        intro fails
        obtain ⟨e, fails⟩ := fails
        exact ⟨e, steady.bind_ok fails⟩
    · intro e failed
      refine failed.imp_right (Or.imp_right ?_)
      intro fails
      obtain ⟨e, fails⟩ := fails
      exact ⟨e, fails.bind_error⟩

theorem agreeing_warn {g : Graph} {definitions : List (String × Value)} {opened : List Nat}
    (warning : Warning) : (agreeing g definitions opened).related (warn warning) (warn warning) :=
  fun _ settled => Ends.of_modify ⟨fun _ => rfl, settled.names, settled.bodies, settled.named⟩

/-! ## A definition among others -/

/-- Containers of a graph keep their numbers when the root of all definitions is added. -/
abbrev kept (g : Graph) : Nat → Nat :=
  Graph.placed (List.range g.size) (g.size + 3)

theorem readAlike_loneJob {g : Graph} (closed : g.Closed) (listed : List (String × Value)) :
    ReadAlike (loneJob g) (wholeJob g listed) (kept g) := by
  have renumbers := Graph.renumbers_of_extends (addRoot_spec g listed).2.1 closed
  have size : (addRoot g listed).1.size = g.size + 3 := size_wholeJob g listed
  rw [size] at renumbers
  exact ⟨renumbers, rfl, Display.value_renumber renumbers,
    Display.longIntegers.value_renumber renumbers⟩

theorem node_kept {g : Graph} {id : Nat} (bound : id < g.size) : kept g id = id :=
  Graph.placed_range bound

theorem entries_kept {g : Graph} (closed : g.Closed) {id : Nat} {entries : Entries}
    (found : g.get? id = some (.mapping entries)) : entries.renumber (kept g) = entries := by
  have same : (Node.mapping entries).renumber (kept g) = .mapping entries :=
    Node.renumber_eq_self fun child member =>
      node_kept (closed id child (Graph.mem_successors_iff.2 ⟨_, found, member⟩))
  exact Node.mapping.inj same

/-- Where a definition is compiled that has been given its name: what is being written out around it
is inside of definitions that are being declared, and of the definition itself it is the same as
alone. -/
structure Scene (g : Graph) (definitions : List (String × Value)) (opened around beyond : List Nat)
    (place : Nat) : Prop where
  current : place ∈ opened
  definition : ∀ p ∈ opened, ∃ i, (i, .node p) ∈ definitions
  inside : ∀ id ∈ beyond, ∃ p ∈ opened, Within g p id
  same : ∀ id, Within g place id → (id ∈ beyond ↔ id ∈ around)

/-- A schema of the definition is being written out too. -/
theorem Scene.cons {g : Graph} {definitions : List (String × Value)}
    {opened around beyond : List Nat} {place schema : Nat}
    (scene : Scene g definitions opened around beyond place) (path : Within g place schema) :
    Scene g definitions opened (schema :: around) (schema :: beyond) place where
  current := scene.current
  definition := scene.definition
  inside := by
    intro id member
    rcases List.mem_cons.1 member with here | before
    · exact ⟨place, scene.current, here ▸ path⟩
    · exact scene.inside id before
  same := by
    intro id inside
    rw [List.mem_cons, List.mem_cons, scene.same id inside]

/-- Up to a depth, what is in a definition is compiled as it is alone. -/
def AgreesTo (g : Graph) (definitions listed : List (String × Value)) (depth : Nat) : Prop :=
  ∀ opened around beyond place, Scene g definitions opened around beyond place →
    ∀ named v more, (∀ id, v = .node id → Within g place id) → depth ≤ more →
      (agreeing g definitions opened).related (alone g definitions more around named v)
        ((wholeJob g listed).expression depth beyond named v)

section

variable {g : Graph} {definitions listed : List (String × Value)}

/-- What is taken for a schema inside a definition belongs to it. -/
theorem within_of_asked {place schema : Nat} {entries : Entries} (path : Within g place schema)
    (found : g.get? schema = some (.mapping entries)) {v : Value} (asked : Asked g entries v) :
    ∀ id, v = .node id → Within g place id := by
  intro id same
  have visited : Visited { loneJob g with root := schema } v := .of_asked .root found asked
  exact path.trans (visited.reached id (Value.node?_eq_some_iff.2 same))

variable (apart : Apart g definitions)
include apart

theorem Scene.value_kept {opened around beyond : List Nat} {place : Nat} {v : Value}
    (scene : Scene g definitions opened around beyond place)
    (inside : ∀ id, v = .node id → Within g place id) : v.renumber (kept g) = v := by
  obtain ⟨i, member⟩ := scene.definition place scene.current
  cases v with
  | scalar s => rfl
  | node id =>
    rw [Value.renumber_node, node_kept (lt_size_of_inside apart.toLinked member (inside id rfl))]

/-- The root of a definition is found under its number alone. -/
theorem exists_title {i : String} {place : Nat} {entries : Entries} {name : String}
    (member : (i, .node place) ∈ definitions) (found : g.get? place = some (.mapping entries))
    (titled : entries.get? "title" = some (.str name)) :
    Naming.IsName name ∧ i = lower name ∧ lower name ≠ lower Api.topLevelTitle := by
  obtain ⟨other, held, title, isNode, there, titledToo, _, isName, isId, unreserved⟩ :=
    apart.root member
  cases isNode
  rw [there] at found
  cases found
  rw [titledToo] at titled
  cases titled
  exact ⟨isName, isId, unreserved⟩

/-- As long as a definition has no name, nothing else has its title for a name. -/
theorem freeName_definition {opened : List Nat} {i : String} {place : Nat} {entries : Entries}
    {name : String} (member : (i, .node place) ∈ definitions)
    (found : g.get? place = some (.mapping entries))
    (titled : entries.get? "title" = some (.str name)) {draft : Draft}
    (settled : Settled g definitions opened draft) (missing : draft.nameOf? place = none) :
    draft.freeName name = name := by
  obtain ⟨_, isId, unreserved⟩ := exists_title apart member found titled
  have free : ∀ entry ∈ draft.names, entry.2 ≠ name := by
    intro entry isEntry taken
    rcases settled.names entry isEntry with isRoot | ⟨j, others, listed, held, title⟩
    · have reserved : lower rootName = lower Api.topLevelTitle := by decide +kernel
      rw [isRoot] at taken
      rw [← taken] at unreserved
      exact unreserved reserved
    · -- a definition with the same title would be the same
      obtain ⟨_, isOther, _⟩ := exists_title apart listed held title
      have ids : j = i := by rw [isOther, isId, taken]
      have equal := List.inj_on_of_nodup_map apart.ids listed member ids
      have samePlace : entry.1 = place := Value.node.inj (Prod.mk.inj equal).2
      refine nameOf?_eq_none missing ?_
      rw [← samePlace]
      exact List.mem_map_of_mem isEntry
  exact freeName_of_not_taken free

/-- What is taken for a schema inside a definition is compiled as it is alone. -/
theorem asks_agree {depth : Nat} (agrees : AgreesTo g definitions listed depth)
    {opened around beyond : List Nat} {place schema more : Nat} {entries : Entries}
    (scene : Scene g definitions opened around beyond place) (path : Within g place schema)
    (found : g.get? schema = some (.mapping entries)) (enough : depth ≤ more)
    {positions : List Value} (asked : ∀ v ∈ positions, Asked g entries v) :
    (agreeing g definitions opened).Asks (kept g) (alone g definitions more)
      ((wholeJob g listed).expression depth) around beyond positions := by
  intro v member
  have inside := within_of_asked path found (asked v member)
  rw [scene.value_kept apart inside]
  exact agrees opened around beyond place scene true v more inside enough

/-- The body of a definition is compiled as it is alone. -/
theorem body_agrees {depth : Nat} (agrees : AgreesTo g definitions listed depth)
    (enough : depth ≤ (wholeJob g definitions).depth) {opened beyond : List Nat} {place : Nat}
    {entries : Entries} (scene : Scene g definitions opened [] beyond place)
    (found : g.get? place = some (.mapping entries)) :
    (agreeing g definitions opened).related
      ((loneJob g).body (alone g definitions (wholeJob g definitions).depth) [] place entries)
      ((wholeJob g listed).body ((wholeJob g listed).expression depth) beyond place entries) := by
  have self : ∀ id, Value.node place = .node id → Within g place id := by
    intro id same
    cases same
    exact .refl
  have same : kept g place = place := node_kept (Graph.lt_size_of_get? found)
  have own : (agreeing g definitions opened).related
      (alone g definitions (wholeJob g definitions).depth [] false (.node place))
      ((wholeJob g listed).expression depth beyond false (.node (kept g place))) := by
    rw [same]
    exact agrees opened [] beyond place scene false (.node place) _ self enough
  have body := Lockstep.body (readAlike_loneJob apart.closed listed)
    (fun _ => asks_agree apart agrees scene .refl found enough
      fun _ => asked_of_mem_objectPositions) own
  rwa [same, entries_kept apart.closed found] at body

/-- Where a definition is begun, nothing of it is being written out: the schemas around belong to
others. -/
theorem scene_opening {opened beyond : List Nat}
    (definition : ∀ p ∈ opened, ∃ i, (i, .node p) ∈ definitions)
    (inside : ∀ id ∈ beyond, ∃ p ∈ opened, Within g p id) {i : String} {place : Nat}
    (member : (i, .node place) ∈ definitions) {draft : Draft}
    (settled : Settled g definitions opened draft) (missing : draft.nameOf? place = none) :
    Scene g definitions (place :: opened) [] beyond place where
  current := List.mem_cons_self
  definition := by
    intro p isOpened
    rcases List.mem_cons.1 isOpened with here | before
    · exact ⟨i, here ▸ member⟩
    · exact definition p before
  inside := by
    intro id isAround
    obtain ⟨p, isOpened, path⟩ := inside id isAround
    exact ⟨p, List.mem_cons_of_mem _ isOpened, path⟩
  same := by
    intro id path
    refine ⟨fun isAround => ?_, fun none => by cases none⟩
    obtain ⟨p, isOpened, pathOther⟩ := inside id isAround
    obtain ⟨j, listed⟩ := definition p isOpened
    have samePlace := apart.disjoint listed member pathOther path
    rw [samePlace] at isOpened
    exact absurd (settled.named place isOpened) (nameOf?_eq_none missing)

omit apart in
theorem Settled.opening {opened : List Nat} {i : String} {place : Nat} {entries : Entries}
    {name : String} {draft : Draft} (settled : Settled g definitions opened draft)
    (member : (i, .node place) ∈ definitions) (found : g.get? place = some (.mapping entries))
    (titled : entries.get? "title" = some (.str name)) :
    Settled g definitions (place :: opened)
      { draft with names := draft.names ++ [(place, name)] } where
  names := by
    intro entry isEntry
    rcases List.mem_append.1 isEntry with old | new
    · exact settled.names entry old
    · rw [List.mem_singleton.1 new]
      exact Or.inr ⟨i, entries, member, found, titled⟩
  bodies := settled.bodies
  named := by
    intro p isOpened
    rw [List.map_append, List.mem_append]
    rcases List.mem_cons.1 isOpened with here | before
    · exact Or.inr (by rw [here]; exact List.mem_singleton_self _)
    · exact Or.inl (settled.named p before)

omit apart in
theorem Settled.closing {opened : List Nat} {place : Nat} {draft : Draft}
    (settled : Settled g definitions (place :: opened) draft) : Settled g definitions opened draft :=
  ⟨settled.names, settled.bodies, fun p isOpened =>
    settled.named p (List.mem_cons_of_mem _ isOpened)⟩

omit apart in
theorem Settled.finish {opened : List Nat} {place : Nat} {draft : Draft} {comment : Comment}
    {body : DeclarationBody} (settled : Settled g definitions opened draft)
    (finished : place = g.size + 2 ∨ ∃ entries, g.get? place = some (.mapping entries) ∧
      comment = commentOf g entries ∧ bodyAlone g definitions place entries = .ok body) :
    Settled g definitions opened (draft.finish place comment body) where
  names := settled.names
  bodies := by
    intro other isBody
    rcases List.mem_append.1 isBody with old | new
    · exact settled.bodies other old
    · rw [List.mem_singleton.1 new]
      exact finished
  named := settled.named

/-- A definition that is not being declared gets its title for a name and the body that it has
alone. -/
theorem declare_settles {depth : Nat} (agrees : AgreesTo g definitions listed depth)
    (enough : depth ≤ (wholeJob g definitions).depth) {opened beyond : List Nat}
    (definition : ∀ p ∈ opened, ∃ i, (i, .node p) ∈ definitions)
    (inside : ∀ id ∈ beyond, ∃ p ∈ opened, Within g p id) {i : String} {place : Nat}
    {entries : Entries} {name : String} (member : (i, .node place) ∈ definitions)
    (found : g.get? place = some (.mapping entries))
    (titled : entries.get? "title" = some (.str name)) (standIn : String) {draft : Draft}
    (settled : Settled g definitions opened draft) :
    Ends draft ((wholeJob g listed).declare ((wholeJob g listed).expression depth) beyond standIn
      place entries) (fun given after => given = name ∧ Settled g definitions opened after)
      fun e => e = .endless ∨ Refused g definitions := by
  have bound := lt_size_of_definition apart.toLinked member
  obtain ⟨isName, _⟩ := exists_title apart member found titled
  have asked := titleName_eq_of_isName titled isName (wholeJob g listed) standIn
  unfold Job.declare
  refine Ends.of_bind (Ends.of_get ?_)
  split
  · next given already =>
    refine Ends.of_pure ⟨?_, settled⟩
    rcases settled.names _ (nameOf?_eq_some already) with isRoot | ⟨_, others, _, held, title⟩
    · injection isRoot with isRoot
      omega
    · rw [found] at held
      cases held
      rw [titled] at title
      cases title
      rfl
  next missing =>
  refine Ends.of_bind (Ends.of_get (Ends.of_bind (Ends.of_lift (fun title given => ?_) ?_)))
  · rw [asked] at given
    cases given
    rw [freeName_definition apart member found titled settled missing]
    refine Ends.of_bind (Ends.of_modify ?_)
    have declares : (wholeJob g listed).options.declareReferenced = true := rfl
    rw [if_pos (Or.inr declares)]
    have scene : Scene g definitions (place :: opened) [] beyond place :=
      scene_opening apart definition inside member settled missing
    have opening : Settled g definitions (place :: opened)
        { draft with names := draft.names ++ [(place, name)] } :=
      settled.opening member found titled
    have body := body_agrees apart agrees enough scene found
    refine Ends.of_bind ((body _ opening).imp ?_ ?_)
    · intro body after both
      obtain ⟨steady, still⟩ := both
      have comment : commentOf (wholeJob g listed).graph entries = commentOf g entries := by
        have same := commentOf_renumber (readAlike_loneJob apart.closed listed).graph entries
        rwa [entries_kept apart.closed found] at same
      have finished := still.closing.finish (Or.inr ⟨entries, found, comment, steady {}⟩)
      exact Ends.of_bind (Ends.of_modify (Ends.of_pure ⟨rfl, finished⟩))
    · intro e failed
      refine failed.imp_right ?_
      intro refused
      rcases refused with refused | ⟨other, steady⟩
      · exact refused
      · exact ⟨i, place, entries, other, member, found, steady {}⟩
  · intro e failed
    rw [asked] at failed
    cases failed

/-- A mention of a definition declares it when it is the first. -/
theorem mention_agrees {depth : Nat} (agrees : AgreesTo g definitions listed depth)
    (enough : depth ≤ (wholeJob g definitions).depth) {opened around beyond : List Nat} {p : Nat}
    (scene : Scene g definitions opened around beyond p) {i : String} {place : Nat}
    {entries : Entries} {name : String} (member : (i, .node place) ∈ definitions)
    (found : g.get? place = some (.mapping entries))
    (titled : entries.get? "title" = some (.str name)) :
    (agreeing g definitions opened).related ((loneJob g).mention around "" place entries)
      ((wholeJob g listed).declare ((wholeJob g listed).expression depth) beyond "" place
        entries) := by
  intro draft settled
  obtain ⟨isName, _⟩ := exists_title apart member found titled
  refine (declare_settles apart agrees enough scene.definition scene.inside member found titled ""
    settled).imp ?_ ?_
  · intro given after both
    obtain ⟨rfl, still⟩ := both
    have asked := Steady.lift ((loneJob g).titleName entries "")
    rw [titleName_eq_of_isName titled isName] at asked
    refine ⟨?_, still⟩
    rw [Job.mention, titleName_eq_of_isName titled isName]
    exact asked
  · intro e failed
    exact failed.imp_right Or.inl

/-- What a value in a definition leads to, in any order of the definitions: itself or the root of a
definition. -/
theorem exists_followed (same : listed.Perm definitions) {i : String} {place : Nat}
    (member : (i, .node place) ∈ definitions) {v : Value}
    (inside : ∀ id, v = .node id → Within g place id) : ∃ target,
    follow (wholeJob g definitions).graph (.node (wholeJob g definitions).root) v = .ok target ∧
      follow (wholeJob g listed).graph (.node (wholeJob g listed).root) v = .ok target ∧
      (target = (v, false) ∨ ∃ j q, (j, .node q) ∈ definitions ∧ target = (.node q, true)) := by
  cases v with
  | scalar s =>
    exact ⟨_, follow_of_no_reference rfl, follow_of_no_reference rfl, Or.inl rfl⟩
  | node id =>
    rw [follow_perm apart same member (inside id rfl)]
    rcases follow_inside apart.toLinked member (inside id rfl) with
      ⟨_, ends⟩ | ⟨j, q, listed, _, ends⟩
    · exact ⟨_, ends, ends, Or.inl rfl⟩
    · exact ⟨_, ends, ends, Or.inr ⟨j, q, listed, rfl⟩⟩

/-- A step from a value in a definition is what it is alone, if what is inside is compiled so. -/
theorem agreesTo_succ (same : listed.Perm definitions) {depth : Nat}
    (agrees : AgreesTo g definitions listed depth)
    (enough : depth ≤ (wholeJob g definitions).depth) :
    AgreesTo g definitions listed (depth + 1) := by
  intro opened around beyond place scene named v more inside le
  obtain ⟨i, member⟩ := scene.definition place scene.current
  obtain ⟨fuel, rfl⟩ := Nat.exists_eq_add_of_le' (Nat.one_le_of_lt le)
  have alike := readAlike_loneJob apart.closed listed
  obtain ⟨⟨target, hopped⟩, alone, whole, cases⟩ := exists_followed apart same member inside
  -- a schema that is followed to belongs to the definition, or is the root of another
  have leads : ∀ schema, target = .node schema → hopped = false ∧ Within g place schema ∨
      hopped = true ∧ ∃ j, (j, .node schema) ∈ definitions := by
    intro schema isNode
    rcases cases with itself | ⟨j, q, listed, other⟩
    · cases itself
      exact Or.inl ⟨rfl, inside schema isNode⟩
    · cases other
      cases isNode
      exact Or.inr ⟨rfl, j, listed⟩
  have fixed : target.renumber (kept g) = target := by
    cases target with
    | scalar s => rfl
    | node schema =>
      rw [Value.renumber_node, node_kept]
      rcases leads schema rfl with ⟨_, path⟩ | ⟨_, j, definition⟩
      · exact lt_size_of_inside apart.toLinked member path
      · exact lt_size_of_definition apart.toLinked definition
  have step : (agreeing g definitions opened).related
      ((loneJob g).stepVia (follow (wholeJob g definitions).graph
        (.node (wholeJob g definitions).root)) (loneJob g).mention
        (Compile.alone g definitions fuel) around named v)
      ((wholeJob g listed).stepVia (follow (wholeJob g listed).graph
        (.node (wholeJob g listed).root))
        ((wholeJob g listed).declare ((wholeJob g listed).expression depth))
        ((wholeJob g listed).expression depth) beyond named (v.renumber (kept g))) := by
    refine Lockstep.stepVia alike ?_ ?_ ?_
    · rw [scene.value_kept apart inside, alone, whole, Except.map, fixed]
    · intro schema entries text _ followed found titled _
      change g.get? schema = _ at found
      rw [alone] at followed
      injection followed with followed
      obtain ⟨isNode, _⟩ := Prod.mk.inj followed
      have isDefinition : ∃ j, (j, .node schema) ∈ definitions := by
        rcases leads schema isNode with ⟨_, path⟩ | ⟨_, definition⟩
        · rw [apart.untitled member path found titled]
          exact ⟨i, member⟩
        · exact definition
      obtain ⟨j, definition⟩ := isDefinition
      rw [node_kept (Graph.lt_size_of_get? found), entries_kept apart.closed found]
      exact mention_agrees apart agrees enough scene definition found titled
    · intro schema entries _ followed found _ untitled
      change g.get? schema = _ at found
      rw [alone] at followed
      injection followed with followed
      obtain ⟨isNode, rfl⟩ := Prod.mk.inj followed
      rcases leads schema isNode with ⟨_, path⟩ | ⟨rfl, j, definition⟩
      · rw [node_kept (Graph.lt_size_of_get? found)]
        exact ⟨scene.same schema path, fun _ => agreeing_warn _, Lockstep.written alike
          (asks_agree apart agrees (scene.cons path) path found (Nat.le_of_succ_le_succ le)
            fun _ => asked_of_mem_positions)⟩
      · -- the root of a definition has a title that a reference asks for
        obtain ⟨_, _, name, isRoot, there, titled, _⟩ := apart.root definition
        cases isRoot
        rw [there] at found
        cases found
        exact absurd titled (untitled (Bool.or_true _) name)
  rwa [scene.value_kept apart inside] at step

theorem agreesTo (same : listed.Perm definitions) (depth : Nat)
    (enough : depth ≤ (wholeJob g definitions).depth) : AgreesTo g definitions listed depth := by
  induction depth with
  | zero =>
    intro opened around beyond place _ named v more _ _ draft _
    exact Ends.of_throw (Or.inl rfl)
  | succ depth ih =>
    have before := Nat.le_of_succ_le enough
    exact agreesTo_succ apart same (ih before) before

/-! ## The whole run -/

/-- The mention of a definition in the root. -/
theorem property_settles (same : listed.Perm definitions) {i : String} {v : Value}
    (member : (i, v) ∈ definitions) {draft : Draft} (settled : Settled g definitions [] draft) :
    Ends draft ((wholeJob g listed).expression (wholeJob g listed).depth [] true v)
      (fun _ after => Settled g definitions [] after)
      fun e => e = .endless ∨ Refused g definitions := by
  obtain ⟨place, entries, name, rfl, found, titled, _⟩ := apart.root member
  have held : (wholeJob g listed).graph.get? place = some (.mapping entries) := by
    rw [get?_wholeJob g listed (Graph.lt_size_of_get? found), found]
  have noRef : (wholeJob g listed).graph.field? (.node place) refKey = none :=
    field?_definition (apart.perm same).toLinked (same.mem_iff.2 member)
  have size : (wholeJob g listed).graph.size = (wholeJob g definitions).graph.size := by
    rw [size_wholeJob, size_wholeJob]
  have enough : 2 * (wholeJob g listed).graph.size + 1 ≤ (wholeJob g definitions).depth := by
    rw [Job.depth, size]
    exact Nat.le_succ _
  change Ends draft ((wholeJob g listed).step ((wholeJob g listed).expression _) [] true _) _ _
  rw [step_of_titled (follow_of_no_reference noRef) held titled]
  refine Ends.of_bind ((declare_settles apart (agreesTo apart same _ enough) enough (by simp)
    (by simp) member found titled "" settled).mono ?_)
  intro given after both
  exact Ends.of_pure both.2

omit apart in
theorem required_rootEntries : requiredKeys (wholeJob g listed).graph (rootEntries g) = .ok [] := by
  simp [requiredKeys, rootEntries, Entries.get?_cons]

omit apart in
/-- The root has no index signature. -/
theorem indexTypes_rootEntries (inner : Inner) (around : List Nat) :
    (wholeJob g listed).indexTypes inner around (rootEntries g) = pure [] := by
  have patterns : entriesUnder (wholeJob g listed).graph (rootEntries g) "patternProperties" =
      .ok [] := by
    simp [entriesUnder, rootEntries, Entries.get?_cons]
  have additional : (rootEntries g).get? "additionalProperties" = some (.bool false) := by
    simp [rootEntries, Entries.get?_cons]
  rw [Job.indexTypes, patterns, additional]
  rfl

/-- The type of the root is an object with a property for each definition. -/
theorem object_settles (same : listed.Perm definitions) {draft : Draft}
    (settled : Settled g definitions [] draft) :
    Ends draft ((wholeJob g listed).object
      ((wholeJob g listed).expression (wholeJob g listed).depth) [] (rootEntries g))
      (fun _ after => Settled g definitions [] after)
      fun e => e = .endless ∨ Refused g definitions := by
  unfold Job.object
  rw [required_rootEntries, entriesUnder_rootEntries, indexTypes_rootEntries]
  refine Ends.of_bind (Ends.of_lift (fun required _ => ?_) fun e failed => by cases failed)
  refine Ends.of_bind (Ends.of_lift (fun declared given => ?_) fun e failed => by cases failed)
  cases given
  refine Ends.of_bind ((Ends.of_mapM
    (fun before after => Settled g definitions [] before → Settled g definitions [] after)
    (fun _ _ _ => True) (fun _ => id) (fun first second => second ∘ first) (fun _ _ => trivial)
    _ _ ?_).mono ?_)
  · intro entry isEntry d still
    obtain ⟨definition, isDefinition, rfl⟩ := List.mem_map.1 isEntry
    have member := same.mem_iff.1 isDefinition
    refine Ends.of_bind (Ends.of_lift (fun head _ => ?_) fun e failed => by cases failed)
    refine Ends.of_bind ((property_settles apart same member (still settled)).mono ?_)
    intro t after here
    exact Ends.of_pure ⟨fun _ => here, trivial⟩
  · intro made after both
    exact Ends.of_bind (Ends.of_pure (Ends.of_pure (both.1 settled)))

/-- A compilation of all definitions, in any order, settles what is declared, unless the depth does
not suffice or the body of a definition is refused. -/
theorem run_settles (same : listed.Perm definitions) :
    Ends {} (Job.run (wholeJob g listed)) (fun _ after => Settled g definitions [] after)
      fun e => e = .endless ∨ Refused g definitions := by
  have title : (rootEntries g).get? "title" = some (.str Api.topLevelTitle) := by
    simp [rootEntries, Entries.get?_cons]
  have unnamed : ({} : Draft).nameOf? (wholeJob g listed).root = none := rfl
  have opening : Settled g definitions []
      { names := [((wholeJob g listed).root, rootName)] } := by
    refine ⟨?_, by simp, by simp⟩
    intro entry isEntry
    exact Or.inl (List.mem_singleton.1 isEntry)
  unfold Job.run
  rw [Graph.entries?_of_get? get?_root]
  dsimp only
  rw [title]
  refine Ends.of_bind (Ends.mono ?_ fun name after settled => Ends.of_pure settled)
  unfold Job.declare
  refine Ends.of_bind (Ends.of_get ?_)
  rw [unnamed]
  dsimp only
  refine Ends.of_bind (Ends.of_get (Ends.of_bind (Ends.of_lift (fun asked given => ?_) ?_)))
  · rw [titleName_root] at given
    cases given
    refine Ends.of_bind (Ends.of_modify ?_)
    rw [if_pos (Or.inl rfl), freeName_empty]
    unfold Job.body
    rw [if_pos (isInterface_rootEntries g)]
    refine Ends.of_bind (Ends.of_bind ((object_settles apart same opening).mono ?_))
    intro t after settled
    exact Ends.of_pure (Ends.of_bind (Ends.of_modify (Ends.of_pure
      (settled.finish (Or.inl rfl)))))
  · intro e failed
    rw [titleName_root] at failed
    cases failed

end

end Typewright.Compile
