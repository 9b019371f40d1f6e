import Typewright.Proofs.Compile.Declared

/-!
# Recursion without a name

A compilation gives up on a schema without a title that it meets while it is writing the schema out:
it prints that nothing is known of it and warns. The schemas that are being written out are kept
while a declaration is begun among them, so the schema may be met in a declaration where it is not
written out yet. Main statement: a compilation only gives up on schemas that are rendered inside
themselves, and either by way of schemas without titles alone, or while they are written out in two
declarations (`Compile.source_gives_up`).

That a compilation gives up on nothing else is seen by a run that does so without a warning
(`Job.runSilent`): it has no warnings, and all else is the same.
-/

namespace Typewright.Compile

/-! ## Rendering -/

namespace Job

variable (job : Job)

/-- The container that references lead to from a value, if it is one. -/
def target? (v : Value) : Option Nat :=
  match follow job.graph (.node job.root) v with
  | .ok (.node schema, _) => some schema
  | _ => none

/-- The schemas that rendering a schema renders: what its positions lead to by references, or what it
leads to itself if it is a reference. A reference has no other positions, and a title of its own
counts for nothing. -/
def rendered (schema : Nat) : List Nat :=
  match job.graph.get? schema with
  | some (.mapping entries) =>
    (if entries.has Schema.refKey then [.node schema] else job.positions entries).filterMap
      job.target?
  | _ => []

/-- Whether a schema has a text as its title. -/
def isTitled (schema : Nat) : Bool :=
  ((job.graph.field? (.node schema) "title").bind Value.str?).isSome

/-- Rendering a schema renders another. -/
def Renders (a b : Nat) : Prop :=
  b ∈ job.rendered a

/-- Rendering a schema writes out another where it stands, since that one has no title. -/
def Inlines (a b : Nat) : Prop :=
  b ∈ job.rendered a ∧ job.isTitled b = false

/-- A schema that may be declared: the root, a schema with a title, or a definition, if all of these
are to be declared. -/
def MayDeclare (schema : Nat) : Prop :=
  schema = job.root ∨ job.isTitled schema = true ∨ (job.options.declareUnreachable = true ∧
    ∃ entries definitions key, job.graph.entries? (.node job.root) = some entries ∧
      entriesUnder job.graph entries "definitions" = .ok definitions ∧
      (key, .node schema) ∈ definitions)

/-- A schema is written out in the declaration of another. -/
def WrittenIn (declared schema : Nat) : Prop :=
  Relation.ReflTransGen job.Inlines declared schema

/-- The recursion of a schema that a compilation gives up on. The schema has no title and is rendered
inside itself, and either all that is rendered on the way has no title, or the schema is written out
in two declarations. -/
structure LosesTrack (schema : Nat) : Prop where
  untitled : job.isTitled schema = false
  cycle : Relation.TransGen job.Renders schema schema
  cause : Relation.TransGen job.Inlines schema schema ∨
    ∃ a b, a ≠ b ∧ job.MayDeclare a ∧ job.MayDeclare b ∧ job.WrittenIn a schema ∧
      job.WrittenIn b schema

section

variable {job : Job} {a b : Nat} {entries : Entries} {hopped : Bool}
variable (found : job.graph.get? a = some (.mapping entries))
include found

theorem renders_of_position {v : Value} (plain : entries.has Schema.refKey = false)
    (member : v ∈ job.positions entries)
    (followed : follow job.graph (.node job.root) v = .ok (.node b, hopped)) :
    job.Renders a b := by
  rw [Renders, rendered, found]
  simp only [plain, Bool.false_eq_true, if_false]
  exact List.mem_filterMap.2 ⟨v, member, by rw [target?, followed]⟩

theorem renders_of_reference (refers : entries.has Schema.refKey = true)
    (followed : follow job.graph (.node job.root) (.node a) = .ok (.node b, hopped)) :
    job.Renders a b := by
  rw [Renders, rendered, found]
  simp only [refers, if_true]
  exact List.mem_filterMap.2 ⟨_, List.mem_cons_self, by rw [target?, followed]⟩

omit found in
theorem lt_size_of_renders (renders : job.Renders a b) : a < job.graph.size := by
  rw [Renders, rendered] at renders
  split at renders
  · next there => exact Graph.lt_size_of_get? there
  · cases renders

theorem isTitled_eq : job.isTitled a = ((entries.get? "title").bind Value.str?).isSome := by
  rw [isTitled, Graph.field?_of_get? found]

end

end Job

/-! ## Giving up in silence -/

/-- The schema that a step gives up on: one that is being written out already, if it is not mentioned
by a title. -/
def Job.givenUp? (job : Job) (around : List Nat) (named : Bool) (v : Value) : Option Nat :=
  match follow job.graph (.node job.root) v with
  | .ok (.node schema, hopped) =>
    match job.graph.entries? (.node schema) with
    | some entries =>
      if entries.isEmpty then none
      else if (named || hopped) && ((entries.get? "title").bind Value.str?).isSome then none
      else if around.contains schema then some schema
      else none
    | none => none
  | _ => none

/-- The type of a value, up to a depth, where some schemas are given up on without a warning. -/
def Job.expressionSilent (job : Job) (silent : Nat → Bool) : Nat → Inner
  | 0 => fun _ _ _ => throw .endless
  | depth + 1 => fun around named v =>
    if (job.givenUp? around named v).any silent then return .unknown
    else job.step (job.expressionSilent silent depth) around named v

/-- A compilation that gives up on some schemas without a warning. -/
def Job.runSilent (job : Job) (silent : Nat → Bool) : Compiling Unit :=
  job.runBy (job.declare (job.expressionSilent silent job.depth))

/-- The draft without its warnings. -/
def Draft.quiet (draft : Draft) : Draft :=
  { draft with warnings := [] }

/-- A compilation gives a result and gives up on no other schemas than said: if it does so without a
warning, there is none, and all else stays the same. -/
def OnlyGivesUpOn (job : Job) (may : Nat → Prop) : Prop :=
  ∃ draft, (Job.run job).run {} = .ok ((), draft) ∧
    ∀ silent : Nat → Bool, (∀ schema, may schema → silent schema = true) →
      (job.runSilent silent).run {} = .ok ((), draft.quiet)

section

variable {job : Job}

theorem givenUp?_eq_some {around : List Nat} {named : Bool} {v : Value} {schema : Nat}
    (given : job.givenUp? around named v = some schema) :
    ∃ hopped entries, follow job.graph (.node job.root) v = .ok (.node schema, hopped) ∧
      job.graph.entries? (.node schema) = some entries ∧ entries.isEmpty = false ∧
      ((named || hopped) && ((entries.get? "title").bind Value.str?).isSome) = false ∧
      schema ∈ around := by
  unfold Job.givenUp? at given
  split at given
  · next other hopped followed =>
    split at given
    · next entries read =>
      split at given
      · cases given
      · next inhabited =>
        split at given
        · cases given
        · next unnamed =>
          split at given
          · next met =>
            cases given
            exact ⟨hopped, entries, followed, read, by simpa using inhabited,
              by simpa using unnamed, by simpa using met⟩
          · cases given
    · cases given
  · cases given

theorem givenUp?_of_met {around : List Nat} {named hopped : Bool} {v : Value} {schema : Nat}
    {entries : Entries}
    (followed : follow job.graph (.node job.root) v = .ok (.node schema, hopped))
    (found : job.graph.get? schema = some (.mapping entries)) (inhabited : entries.isEmpty = false)
    (unasked : (named || hopped) = true → ∀ text, entries.get? "title" ≠ some (.str text))
    (met : schema ∈ around) : job.givenUp? around named v = some schema := by
  have unnamed : ((named || hopped) && ((entries.get? "title").bind Value.str?).isSome) = false := by
    rw [Bool.and_eq_false_imp]
    exact fun isAsked => isSome_bind_str?_eq_false_iff.2 (unasked isAsked)
  simp only [Job.givenUp?, followed, Graph.entries?_of_get? found, inhabited, unnamed,
    List.contains_iff_mem.2 met, Bool.false_eq_true, if_false, if_true]

/-- Giving up prints that nothing is known, and warns. -/
theorem step_of_givenUp {around : List Nat} {named : Bool} {v : Value} {schema : Nat}
    (given : job.givenUp? around named v = some schema) (inner : Inner) :
    job.step inner around named v = (do warn .unnamedRecursion; return .unknown) := by
  obtain ⟨hopped, entries, followed, read, inhabited, unnamed, met⟩ := givenUp?_eq_some given
  unfold Job.step
  rw [followed, lift_ok_bind]
  dsimp only
  rw [read]
  dsimp only
  rw [inhabited, unnamed, List.contains_iff_mem.2 met]
  rfl

/-! ## Where references end -/

theorem followFrom_spec {g : Graph} {root v w : Value} {fuel : Nat} {before hopped : Bool}
    (followed : followFrom g root fuel before v = .ok (w, hopped)) :
    g.field? w Schema.refKey = none ∧ ((v = w ∧ hopped = before) ∨ hopped = true) := by
  induction fuel generalizing before v with
  | zero => cases followed
  | succ fuel ih =>
    rw [followFrom] at followed
    split at followed
    · next missing =>
      cases followed
      exact ⟨missing, Or.inl ⟨rfl, rfl⟩⟩
    · obtain ⟨_, _, followed⟩ := exists_of_bind_ok followed
      obtain ⟨next, _, followed⟩ := exists_of_bind_ok followed
      obtain ⟨ended, passed⟩ := ih followed
      exact ⟨ended, Or.inr (passed.elim And.right id)⟩

/-- What references end at is no reference. -/
theorem not_has_refKey_of_follow {v : Value} {schema : Nat} {hopped : Bool} {entries : Entries}
    (followed : follow job.graph (.node job.root) v = .ok (.node schema, hopped))
    (found : job.graph.get? schema = some (.mapping entries)) :
    entries.has Schema.refKey = false := by
  have ended := (followFrom_spec followed).1
  rw [Graph.field?_of_get? found] at ended
  exact Entries.get?_eq_none_iff_not_has.1 ended

/-! ## Schemas under way -/

/-- What is known while a schema is being written out for a declaration, of the schemas that have
names, of the one that is being declared, of the one that is being written out and of those around
it. A schema without a title that is around leads to the current one; it is written out in some
declaration, and if this is the current one, all on the way is written out in it. -/
structure Underway (job : Job) (named : List Nat) (owner current : Nat) (around : List Nat) :
    Prop where
  declared : ∀ schema ∈ named, job.MayDeclare schema
  owned : owner ∈ named
  inside : job.WrittenIn owner current
  titled : ∀ schema ∈ around, job.isTitled schema = true → schema ∈ named
  untitled : ∀ schema ∈ around, job.isTitled schema = false →
    Relation.ReflTransGen job.Renders schema current ∧
      ∃ other ∈ named, job.WrittenIn other schema ∧
        (other = owner → Relation.ReflTransGen job.Inlines schema current)

namespace Underway

variable {named around : List Nat} {owner current schema : Nat}

/-- A declaration that is begun where nothing is being written out. -/
theorem start (may : job.MayDeclare schema) : Underway job [schema] schema schema [] where
  declared other member := by
    rw [List.mem_singleton.1 member]
    exact may
  owned := List.mem_cons_self
  inside := .refl
  titled _ member := by cases member
  untitled _ member := by cases member

/-- The schema that is being declared is written out itself. -/
theorem itself (underway : Underway job named owner owner around) :
    Underway job named owner owner (owner :: around) where
  declared := underway.declared
  owned := underway.owned
  inside := .refl
  titled other member isTitled := by
    rcases List.mem_cons.1 member with rfl | before
    · exact underway.owned
    · exact underway.titled other before isTitled
  untitled other member bare := by
    rcases List.mem_cons.1 member with rfl | before
    · exact ⟨.refl, other, underway.owned, .refl, fun _ => .refl⟩
    · exact underway.untitled other before bare

variable (underway : Underway job named owner current around)
include underway

/-- A schema without a title is written out where it is rendered. -/
theorem enter (renders : job.Renders current schema) (bare : job.isTitled schema = false) :
    Underway job named owner schema (schema :: around) where
  declared := underway.declared
  owned := underway.owned
  inside := underway.inside.tail ⟨renders, bare⟩
  titled other member isTitled := by
    rcases List.mem_cons.1 member with rfl | before
    · rw [bare] at isTitled
      cases isTitled
    · exact underway.titled other before isTitled
  untitled other member otherBare := by
    rcases List.mem_cons.1 member with rfl | before
    · exact ⟨.refl, owner, underway.owned, underway.inside.tail ⟨renders, bare⟩, fun _ => .refl⟩
    · obtain ⟨path, declared, isNamed, written, within⟩ := underway.untitled other before otherBare
      exact ⟨path.tail renders, declared, isNamed, written,
        fun same => (within same).tail ⟨renders, bare⟩⟩

/-- The declaration of a schema without a name is begun where it is rendered. -/
theorem declare (renders : job.Renders current schema) (isTitled : job.isTitled schema = true)
    (fresh : schema ∉ named) : Underway job (schema :: named) schema schema around where
  declared other member := by
    rcases List.mem_cons.1 member with rfl | before
    · exact Or.inr (Or.inl isTitled)
    · exact underway.declared other before
  owned := List.mem_cons_self
  inside := .refl
  titled other member otherTitled := List.mem_cons_of_mem _ (underway.titled other member otherTitled)
  untitled other member bare := by
    obtain ⟨path, declared, isNamed, written, _⟩ := underway.untitled other member bare
    refine ⟨path.tail renders, declared, List.mem_cons_of_mem _ isNamed, written, fun same => ?_⟩
    rw [same] at isNamed
    exact absurd isNamed fresh

/-- A schema without a title that is met again recurs as said. -/
theorem losesTrack (renders : job.Renders current schema) (bare : job.isTitled schema = false)
    (met : schema ∈ around) : job.LosesTrack schema := by
  obtain ⟨path, other, isNamed, written, within⟩ := underway.untitled schema met bare
  refine ⟨bare, .tail' path renders, ?_⟩
  by_cases same : other = owner
  · exact Or.inl (.tail' (within same) ⟨renders, bare⟩)
  · exact Or.inr ⟨other, owner, same, underway.declared other isNamed,
      underway.declared owner underway.owned, written, underway.inside.tail ⟨renders, bare⟩⟩

end Underway

/-- What is compiled while a schema is being written out: one of its positions, or itself if it is
being declared and not around already. -/
def Comes (job : Job) (owner current : Nat) (around : List Nat) (named : Bool) (v : Value) : Prop :=
  (∃ entries, named = true ∧ job.graph.get? current = some (.mapping entries) ∧
    entries.has Schema.refKey = false ∧ v ∈ job.positions entries) ∨
  ∃ entries, named = false ∧ job.graph.get? current = some (.mapping entries) ∧
    v = .node owner ∧ current = owner ∧ owner ∉ around

/-- What is compiled leads to a schema that the current one renders, and a title is asked for, or it
is the schema that is being declared. -/
theorem Comes.cases {owner current : Nat} {around : List Nat} {named hopped : Bool} {v : Value}
    {schema : Nat} (comes : Comes job owner current around named v)
    (followed : follow job.graph (.node job.root) v = .ok (.node schema, hopped)) :
    (job.Renders current schema ∧ (named || hopped) = true) ∨
      (schema = owner ∧ current = owner ∧ owner ∉ around ∧ (named || hopped) = false) := by
  rcases comes with ⟨entries, rfl, found, plain, member⟩ | ⟨entries, rfl, found, rfl, rfl, outside⟩
  · exact Or.inl ⟨Job.renders_of_position found plain member followed, rfl⟩
  · have held := Graph.field?_of_get? found Schema.refKey
    obtain ⟨ended, ⟨same, rfl⟩ | hops⟩ := followFrom_spec followed
    · exact Or.inr ⟨(Value.node.inj same).symm, rfl, outside, rfl⟩
    · cases refers : entries.has Schema.refKey with
      | true =>
        refine Or.inl ⟨Job.renders_of_reference found refers followed, ?_⟩
        rw [hops, Bool.or_true]
      | false =>
        have plain := held.trans (Entries.get?_eq_none_iff_not_has.2 refers)
        rw [follow_of_no_reference plain] at followed
        cases followed
        exact Or.inr ⟨rfl, rfl, outside, rfl⟩

end

/-! ## Runs in silence -/

/-- A step from a draft only adds names, and another does the same without its warnings. -/
def Quiets {α : Type} (draft : Draft) (step silent : Compiling α) : Prop :=
  Runs draft step fun a after =>
    draft.names <+: after.names ∧ silent.run draft.quiet = .ok (a, after.quiet)

namespace Quiets

variable {α β : Type} {draft : Draft}

theorem of_pure (a : α) : Quiets draft (pure a) (pure a) :=
  Runs.of_pure ⟨List.prefix_rfl, rfl⟩

theorem of_bind {step silent : Compiling α} {next following : α → Compiling β}
    (first : Quiets draft step silent)
    (later : ∀ a between, draft.names <+: between.names → Quiets between (next a) (following a)) :
    Quiets draft (step >>= next) (silent >>= following) := by
  refine Runs.of_bind (Runs.mono first ?_)
  rintro a between ⟨names, same⟩
  refine Runs.mono (later a between names) ?_
  rintro b after ⟨namesLater, sameLater⟩
  refine ⟨names.trans namesLater, ?_⟩
  rw [StateT.run_bind, same]
  exact sameLater

theorem of_get {next following : Draft → Compiling α}
    (later : Quiets draft (next draft) (following draft.quiet)) :
    Quiets draft (get >>= next) (get >>= following) :=
  Runs.of_bind (Runs.of_get later)

theorem of_lift {x : Except Error α} {next following : α → Compiling β}
    (later : ∀ a, Quiets draft (next a) (following a)) :
    Quiets draft (liftM x >>= next) (liftM x >>= following) := by
  cases x with
  | error e => exact Runs.of_throw
  | ok a => exact later a

theorem of_modify {change other : Draft → Draft} {next following : PUnit → Compiling α}
    (adds : draft.names <+: (change draft).names) (same : other draft.quiet = (change draft).quiet)
    (later : Quiets (change draft) (next ⟨⟩) (following ⟨⟩)) :
    Quiets draft (modify change >>= next) (modify other >>= following) := by
  refine Runs.of_bind (Runs.of_modify (Runs.mono later ?_))
  rintro a after ⟨names, ran⟩
  refine ⟨adds.trans names, ?_⟩
  change (following ⟨⟩).run (other draft.quiet) = _
  rw [same, ran]

end Quiets

/-- Steps that do the same from all drafts in which some schemas have names. -/
def quieting (named : List Nat) : Lockstep where
  related step silent := ∀ draft, named ⊆ draft.names.map (·.1) → Quiets draft step silent
  pure a _ _ := .of_pure a
  throw _ _ _ := Runs.of_throw
  bind same each draft given := .of_bind (same draft given) fun a between names =>
    each a between (List.Subset.trans given (names.map _).subset)

section

variable {job : Job} {inner silent : Inner} {named around : List Nat} {schema : Nat}
variable {entries : Entries}

/-- Declaring a schema, if its body is compiled alike where it has a name. -/
theorem declare_quieted {standIn : String}
    (body : schema ∉ named → (quieting (schema :: named)).related
      (job.body inner around schema entries) (job.body silent around schema entries)) :
    (quieting named).related (job.declare inner around standIn schema entries)
      (job.declare silent around standIn schema entries) := by
  intro draft given
  unfold Job.declare
  refine .of_get ?_
  have same : draft.quiet.nameOf? schema = draft.nameOf? schema := rfl
  rw [same]
  cases missing : draft.nameOf? schema with
  | some name => exact .of_pure name
  | none =>
    have fresh : schema ∉ named := fun member => nameOf?_eq_none missing (given member)
    refine .of_get (.of_lift fun title => ?_)
    refine .of_modify (List.prefix_append _ _) rfl ?_
    split
    · have givenToo : schema :: named ⊆ (draft.give schema title).names.map (·.1) := by
        rw [Draft.give, List.map_append, List.cons_subset]
        exact ⟨List.mem_append_right _ List.mem_cons_self,
          List.subset_append_of_subset_left _ given⟩
      refine .of_bind (body fresh _ givenToo) fun body between _ => ?_
      exact .of_modify List.prefix_rfl rfl (.of_pure _)
    · exact .of_pure _

/-- The functions for the schemas inside are alike for all that comes while schemas are being written
out. -/
def Quieted (job : Job) (inner silent : Inner) : Prop :=
  ∀ {named owner current around asked v}, Underway job named owner current around →
    Comes job owner current around asked v →
    (quieting named).related (inner around asked v) (silent around asked v)

/-- The body of a declaration, if the schemas inside are compiled alike. -/
theorem body_quieted (quieted : Quieted job inner silent)
    (underway : Underway job named schema schema around)
    (found : job.graph.get? schema = some (.mapping entries)) (outside : schema ∉ around) :
    (quieting named).related (job.body inner around schema entries)
      (job.body silent around schema entries) := by
  have asks : isInterface entries = true → (quieting named).Asks id inner silent around around
      (job.objectPositions entries) := by
    intro interface v member
    rw [Value.renumber_id]
    refine quieted underway (Or.inl ⟨entries, rfl, found, ?_, ?_⟩)
    · rw [Entries.has, get?_eq_none_of_isInterface interface _ (by decide)]
      rfl
    · rwa [positions_of_isInterface interface]
  have own : (quieting named).related (inner around false (.node schema))
      (silent around false (.node (id schema))) :=
    quieted underway (Or.inr ⟨entries, rfl, found, rfl, rfl, outside⟩)
  have body := Lockstep.body (Alike.refl job).toReadAlike asks own
  rwa [Entries.renumber_id] at body

/-- A step, if the schemas inside are compiled alike and it does not give up. -/
theorem step_quieted (quieted : Quieted job inner silent) {owner current : Nat} {asked : Bool}
    {v : Value} (underway : Underway job named owner current around)
    (comes : Comes job owner current around asked v) (goesOn : job.givenUp? around asked v = none) :
    (quieting named).related (job.step inner around asked v) (job.step silent around asked v) := by
  have step : (quieting named).related
      (job.stepVia (follow job.graph (.node job.root)) (job.declare inner) inner around asked v)
      (job.stepVia (follow job.graph (.node job.root)) (job.declare silent) silent around asked
        (v.renumber id)) := by
    refine Lockstep.stepVia (Alike.refl job).toReadAlike ?_ ?_ ?_
    · rw [Value.renumber_id]
      cases follow job.graph (.node job.root) v with
      | error e => rfl
      | ok target => simp [Except.map, Value.renumber_id]
    · intro schema entries text hopped followed found titled isAsked
      have isTitled : job.isTitled schema = true := by
        rw [Job.isTitled_eq found, bind_str?_eq_some_iff.2 titled]
        rfl
      rw [Entries.renumber_id]
      refine declare_quieted fun fresh => ?_
      rcases comes.cases followed with ⟨renders, _⟩ | ⟨_, _, _, unasked⟩
      · exact body_quieted quieted (underway.declare renders isTitled fresh) found
          fun met => fresh (underway.titled schema met isTitled)
      · rw [isAsked] at unasked
        cases unasked
    · intro schema entries hopped followed found inhabited unasked
      refine ⟨Iff.rfl, fun met => ?_, ?_⟩
      · rw [givenUp?_of_met followed found inhabited unasked met] at goesOn
        cases goesOn
      · have within : Underway job named owner schema (schema :: around) := by
          rcases comes.cases followed with ⟨renders, isAsked⟩ | ⟨rfl, rfl, _⟩
          · refine underway.enter renders ?_
            rw [Job.isTitled_eq found]
            exact isSome_bind_str?_eq_false_iff.2 (unasked isAsked)
          · exact underway.itself
        refine Lockstep.written (Alike.refl job).toReadAlike fun v member => ?_
        rw [Value.renumber_id]
        exact quieted within
          (Or.inl ⟨entries, rfl, found, not_has_refKey_of_follow followed found, member⟩)
  rwa [Value.renumber_id] at step

variable {silences : Nat → Bool}
variable (all : ∀ schema, job.LosesTrack schema → silences schema = true)
include all

/-- A step gives up on a schema only if that loses track. -/
theorem silences_of_givenUp {owner current : Nat} {asked : Bool} {v : Value}
    (underway : Underway job named owner current around)
    (comes : Comes job owner current around asked v)
    (given : job.givenUp? around asked v = some schema) : silences schema = true := by
  obtain ⟨hopped, entries, followed, read, _, unnamed, met⟩ := givenUp?_eq_some given
  rcases comes.cases followed with ⟨renders, isAsked⟩ | ⟨rfl, _, outside, _⟩
  · have bare : job.isTitled schema = false := by
      rw [isAsked, Bool.true_and] at unnamed
      rw [Job.isTitled_eq (Graph.get?_of_entries? read), unnamed]
    exact all schema (underway.losesTrack renders bare met)
  · exact absurd met outside

/-- A compilation of a value is the same in silence. -/
theorem expression_quieted (depth : Nat) :
    Quieted job (job.expression depth) (job.expressionSilent silences depth) := by
  induction depth with
  | zero => exact fun _ _ => (quieting _).throw _
  | succ depth ih =>
    intro named owner current around asked v underway comes
    rw [Job.expression, Job.expressionSilent]
    dsimp only
    cases given : job.givenUp? around asked v with
    | none =>
      rw [Option.any_none, if_neg (by decide)]
      exact step_quieted ih underway comes given
    | some schema =>
      rw [step_of_givenUp given, Option.any_some, silences_of_givenUp all underway comes given,
        if_pos rfl]
      exact fun draft _ => Runs.of_bind (Runs.of_modify (Runs.of_pure ⟨List.prefix_rfl, rfl⟩))

/-- A compilation is the same in silence. -/
theorem run_quieted : (quieting []).related job.run (job.runSilent silences) := by
  have quieted : Quieted job (job.expression job.depth) (job.expressionSilent silences job.depth) :=
    expression_quieted all job.depth
  rw [Job.run_eq_runBy, Job.runSilent]
  refine Lockstep.runBy (fun entries read => declare_quieted fun _ => ?_)
    fun unreachable key schema inside listed read => declare_quieted fun _ => ?_
  · exact body_quieted quieted (Underway.start (Or.inl rfl)) (Graph.get?_of_entries? read) (by simp)
  · obtain ⟨entries, definitions, isRoot, given, member⟩ := listed
    have may : job.MayDeclare schema :=
      Or.inr (Or.inr ⟨unreachable, entries, definitions, key, isRoot, given, member⟩)
    exact body_quieted quieted (Underway.start may) (Graph.get?_of_entries? read) (by simp)

end

/-! ## Sources -/

/-- A run that is nowhere silent is the run itself. -/
theorem Job.runSilent_false (job : Job) : job.runSilent (fun _ => false) = job.run := by
  have same : ∀ depth, job.expressionSilent (fun _ => false) depth = job.expression depth := by
    intro depth
    induction depth with
    | zero => rfl
    | succ depth ih =>
      funext around named v
      rw [Job.expressionSilent, ih]
      dsimp only
      rw [if_neg (by simp)]
      rfl
  rw [Job.runSilent, same]
  rfl

/-- A compilation that gives up on no schema does not warn. -/
theorem warnings_of_gives_up_on_none {job : Job} {draft : Draft} {may : Nat → Prop}
    (gives : OnlyGivesUpOn job may) (none : ∀ schema, ¬ may schema)
    (ran : (Job.run job).run {} = .ok ((), draft)) : draft.warnings = [] := by
  obtain ⟨other, ranOther, same⟩ := gives
  have silent := same (fun _ => false) fun schema one => absurd one (none schema)
  rw [Job.runSilent_false, ran] at silent
  injection silent with both
  rw [(Prod.mk.inj both).2]
  rfl

theorem onlyGivesUpOn_of_run {job : Job} {draft : Draft}
    (ran : (Job.run job).run {} = .ok ((), draft)) : OnlyGivesUpOn job job.LosesTrack :=
  ⟨draft, ran, fun _ all => (run_quieted all {} (List.nil_subset _) () draft ran).2⟩

/-- A compilation that gives a source only gives up on schemas that are rendered inside themselves,
by way of schemas without titles alone or while they are written out in two declarations. -/
theorem source_gives_up {g : Graph} {schema : Value} {options : Options} {source : Source}
    (made : Compile.source g schema options = .ok source) :
    ∃ root, schema = .node root ∧
      OnlyGivesUpOn ⟨g, root, options⟩ (Job.LosesTrack ⟨g, root, options⟩) := by
  obtain ⟨root, draft, rfl, ran, _⟩ := exists_run_of_source made
  exact ⟨root, rfl, onlyGivesUpOn_of_run ran⟩

/-- The list that holds itself is given up on. -/
theorem source_gives_up_knot : ∃ source,
    Compile.source knot (.node 0) {} = .ok source ∧ source.warnings = [.unnamedRecursion] ∧
      OnlyGivesUpOn ⟨knot, 0, {}⟩ (Job.LosesTrack ⟨knot, 0, {}⟩) := by
  obtain ⟨source, made, warnings⟩ : ∃ source, Compile.source knot (.node 0) {} = .ok source ∧
      source.warnings = [.unnamedRecursion] := exists_of_toOption_map (by decide +kernel)
  obtain ⟨root, same, gives⟩ := source_gives_up made
  cases same
  exact ⟨source, made, warnings, gives⟩

/-- A definition without a title that is written out in the root, and in the declaration of another
which it mentions itself. -/
def sharedUnion : Graph := ⟨#[
  .mapping [(.str "title", .str "R"), (.str "type", .str "object"), (.str "definitions", .node 1),
    (.str "properties", .node 2)],
  .mapping [(.str "X", .node 3), (.str "A", .node 4)],
  .mapping [(.str "p", .node 5)],
  .mapping [(.str "anyOf", .node 6)],
  .mapping [(.str "title", .str "A"), (.str "type", .str "object"), (.str "properties", .node 7)],
  .mapping [(.str "$ref", .str "#/definitions/X")],
  .sequence [.node 8, .node 9],
  .mapping [(.str "x", .node 10)],
  .mapping [(.str "$ref", .str "#/definitions/A")],
  .mapping [(.str "type", .str "string")],
  .mapping [(.str "$ref", .str "#/definitions/X")]]⟩

/-- The places of the schemas on the paths that write them out. -/
def sharedUnionRank (schema : Nat) : Nat :=
  if schema = 9 then 0 else if schema = 3 then 1 else 2

/-- A compilation may give up on a schema that is on no cycle of schemas without titles: the one
definition is met in the declaration of the other, which was begun while it was being written out. -/
theorem gives_up_on_titled_cycle :
    (∃ source, Compile.source sharedUnion (.node 0) {} = .ok source ∧
      source.warnings = [.unnamedRecursion]) ∧
    ¬ OnlyGivesUpOn ⟨sharedUnion, 0, {}⟩ fun schema =>
      Relation.TransGen (Job.Inlines ⟨sharedUnion, 0, {}⟩) schema schema := by
  have checked : ∀ a < sharedUnion.size, ∀ b ∈ Job.rendered ⟨sharedUnion, 0, {}⟩ a,
      Job.isTitled ⟨sharedUnion, 0, {}⟩ b = false → sharedUnionRank b < sharedUnionRank a := by
    decide +kernel
  have downwards : ∀ a b, Relation.TransGen (Job.Inlines ⟨sharedUnion, 0, {}⟩) a b →
      sharedUnionRank b < sharedUnionRank a := by
    intro a b path
    induction path with
    | single step => exact checked a (Job.lt_size_of_renders step.1) _ step.1 step.2
    | tail _ step ih => exact (checked _ (Job.lt_size_of_renders step.1) _ step.1 step.2).trans ih
  obtain ⟨source, made, warnings⟩ : ∃ source, Compile.source sharedUnion (.node 0) {} = .ok source ∧
      source.warnings = [.unnamedRecursion] := exists_of_toOption_map (by decide +kernel)
  refine ⟨⟨source, made, warnings⟩, fun gives => ?_⟩
  obtain ⟨root, draft, same, ran, _, sameWarnings⟩ := exists_run_of_source made
  cases same
  have silent := warnings_of_gives_up_on_none gives
    (fun schema cycle => (downwards schema schema cycle).false) ran
  rw [← sameWarnings, warnings] at silent
  cases silent

end Typewright.Compile
