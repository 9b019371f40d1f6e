import Typewright.Proofs.Compile.Displays
import Typewright.Proofs.Compile.Lockstep
import Typewright.Proofs.Compile.Whole

/-!
# Compilations under other numbers

Compiling the same schemas under other numbers takes the same steps, gives the same names to the
same schemas and writes the same text. The larger graph allows for longer chains of references and
for greater depths, which makes no difference to a compilation that does not run out of either
(`Compile.under`): a compilation in which chains of references end never does, so both give the same
source or are refused for the same reason (`Compile.wholeSource_renumber`).
-/

namespace Typewright

namespace Compile

/-! ## References -/

section

variable {g h : Graph} {f : Nat → Nat} (renumbers : g.Renumbers h f)
include renumbers

omit renumbers in
theorem itemAt_renumber (items : List Value) (index : Int) :
    itemAt (items.map (Value.renumber f)) index =
      (itemAt items index).map (Value.renumber f) := by
  unfold itemAt
  simp only [List.length_map, List.getElem?_map]
  generalize (if index < 0 then index + items.length else index) = place
  split
  · rfl
  · cases items[place.toNat]? <;> rfl

theorem stepTo_renumber (ref segment : String) (v : Value) :
    stepTo h ref (v.renumber f) segment = (stepTo g ref v segment).map (Value.renumber f) := by
  unfold stepTo
  rw [renumbers.node?]
  rcases g.node? v with _ | entries | items
  · rfl
  · simp only [Option.map_some, Node.renumber, Entries.get?_renumber]
    cases entries.get? segment <;> rfl
  · simp only [Option.map_some, Node.renumber]
    cases Numeral.int? 10 segment.toList with
    | none => rfl
    | some index => exact itemAt_renumber items index

theorem resolve_renumber (root : Value) (ref : String) :
    resolve h (root.renumber f) ref = (resolve g root ref).map (Value.renumber f) := by
  have walk : ∀ (segments : List (List Char)) (v : Value),
      segments.foldlM (fun v segment => stepTo h ref v (Pointer.decodeSegment segment))
          (v.renumber f) =
        (segments.foldlM (fun v segment => stepTo g ref v (Pointer.decodeSegment segment)) v).map
          (Value.renumber f) := by
    intro segments
    induction segments with
    | nil => exact fun _ => rfl
    | cons segment segments ih =>
      intro v
      rw [List.foldlM_cons, List.foldlM_cons, stepTo_renumber renumbers]
      cases stepTo g ref v (Pointer.decodeSegment segment) with
      | error e => rfl
      | ok next => exact ih next
  unfold resolve
  split
  · exact walk _ root
  · rfl

omit renumbers in
theorem refText_renumber (ref : Value) : refText (ref.renumber f) = refText ref := by
  cases ref <;> rfl

theorem followFrom_renumber (root : Value) (fuel : Nat) (hopped : Bool) (v : Value) :
    followFrom h (root.renumber f) fuel hopped (v.renumber f) =
      (followFrom g root fuel hopped v).map fun target => (target.1.renumber f, target.2) := by
  induction fuel generalizing hopped v with
  | zero => rfl
  | succ fuel ih =>
    rw [followFrom, followFrom, renumbers.field?]
    cases g.field? v Schema.refKey with
    | none => rfl
    | some ref =>
      simp only [Option.map_some, refText_renumber]
      cases refText ref with
      | error e => rfl
      | ok text =>
        change (resolve h (root.renumber f) text >>= fun target => _) =
          (resolve g root text >>= fun target => _).map _
        rw [resolve_renumber renumbers]
        cases resolve g root text with
        | error e => rfl
        | ok target => exact ih true target

omit renumbers in
/-- A chain of references that was followed to its end is followed to the same end with more
fuel. -/
theorem followFrom_succ {root : Value} (fuel : Nat) (hopped : Bool) (v : Value)
    (ends : followFrom g root fuel hopped v ≠ .error .endless) :
    followFrom g root (fuel + 1) hopped v = followFrom g root fuel hopped v := by
  induction fuel generalizing hopped v with
  | zero => exact absurd rfl ends
  | succ fuel ih =>
    rw [followFrom] at ends ⊢
    rw [followFrom]
    cases held : g.field? v Schema.refKey with
    | none => rfl
    | some ref =>
      rw [held] at ends
      dsimp only at ends ⊢
      cases read : refText ref with
      | error e => rfl
      | ok text =>
        rw [read] at ends
        change (resolve g root text >>= fun target => followFrom g root fuel true target) ≠ _ at ends
        change (resolve g root text >>= fun target => followFrom g root (fuel + 1) true target) =
          (resolve g root text >>= fun target => followFrom g root fuel true target)
        cases resolved : resolve g root text with
        | error e => rfl
        | ok target =>
          rw [resolved] at ends
          exact ih true target ends

theorem follow_renumber {root : Value} (chainsEnd : ChainsEnd g root) (v : Value) :
    follow h (root.renumber f) (v.renumber f) =
      (follow g root v).map fun target => (target.1.renumber f, target.2) := by
  have ends : follow g root v ≠ .error .endless := isMalformed_follow chainsEnd
  have more : ∀ fuel, g.size + 1 ≤ fuel → followFrom g root fuel false v = follow g root v := by
    intro fuel le
    induction le with
    | refl => rfl
    | step _ ih => rw [followFrom_succ _ _ _ (by rwa [ih]), ih]
  have le := renumbers.size_le
  rw [follow, followFrom_renumber renumbers, more _ (by omega)]

end

/-! ## Drafts -/

/-- A draft of the same schemas under other numbers. -/
def Draft.renumber (f : Nat → Nat) (draft : Draft) : Draft where
  names := draft.names.map fun entry => (f entry.1, entry.2)
  bodies := draft.bodies.map fun entry => (f entry.1, entry.2)
  warnings := draft.warnings

section

variable {f : Nat → Nat} (injective : Function.Injective f) (draft : Draft)
include injective

theorem Draft.nameOf?_renumber (schema : Nat) :
    (draft.renumber f).nameOf? (f schema) = draft.nameOf? schema := by
  simp [nameOf?, renumber, List.find?_map, Function.comp_def, injective.beq_eq]

omit injective in
theorem Draft.freeName_renumber (name : String) :
    (draft.renumber f).freeName name = draft.freeName name := by
  have taken : (draft.renumber f).isTaken = draft.isTaken := by
    funext other
    simp [isTaken, renumber, Function.comp_def]
  rw [freeName, freeName, taken, renumber, List.length_map]

/-- The declarations differ in the numbers of their schemas only. -/
theorem Draft.texts_renumber :
    (draft.renumber f).declarations.map Declaration.text =
      draft.declarations.map Declaration.text := by
  simp only [declarations, renumber, List.filterMap_map, List.map_filterMap]
  refine List.filterMap_congr fun entry _ => ?_
  simp only [Function.comp_apply, List.find?_map, Function.comp_def, injective.beq_eq,
    Option.map_map]
  rfl

end

/-- From corresponding drafts the second of two steps does what the first does, unless the first runs
out of fuel. -/
def Agrees {α : Type} (f : Nat → Nat) (draft : Draft) (first second : Compiling α) : Prop :=
  first.run draft = .error .endless ∨
    second.run (draft.renumber f) =
      (first.run draft).map fun made => (made.1, made.2.renumber f)

namespace Agrees

variable {α β : Type} {f : Nat → Nat} {draft : Draft}

theorem of_pure (a : α) : Agrees f draft (pure a) (pure a) := Or.inr rfl

theorem of_throw (e : Error) : Agrees f draft (throw e : Compiling α) (throw e) := Or.inr rfl

theorem of_bind {first second : Compiling α} {next other : α → Compiling β}
    (same : Agrees f draft first second) (each : ∀ a after, Agrees f after (next a) (other a)) :
    Agrees f draft (first >>= next) (second >>= other) := by
  rcases same with endless | same
  · refine Or.inl ?_
    rw [StateT.run_bind, endless]
    rfl
  · rw [Agrees, StateT.run_bind, StateT.run_bind, same]
    cases first.run draft with
    | error e => exact Or.inr rfl
    | ok made => exact each made.1 made.2

theorem of_get {next other : Draft → Compiling α}
    (same : Agrees f draft (next draft) (other (draft.renumber f))) :
    Agrees f draft (get >>= next) (get >>= other) := same

theorem of_lift {x : Except Error α} {next other : α → Compiling β}
    (each : ∀ a, Agrees f draft (next a) (other a)) :
    Agrees f draft (liftM x >>= next) (liftM x >>= other) := by
  cases x with
  | error e => exact of_throw e
  | ok a => exact each a

theorem of_modify {change other : Draft → Draft} {next following : PUnit → Compiling α}
    (same : other (draft.renumber f) = (change draft).renumber f)
    (later : Agrees f (change draft) (next ⟨⟩) (following ⟨⟩)) :
    Agrees f draft (modify change >>= next) (modify other >>= following) := by
  rw [Agrees, ← same] at later
  exact later

end Agrees

/-- Steps that agree from all drafts. -/
def under (f : Nat → Nat) : Lockstep where
  related first second := ∀ draft, Agrees f draft first second
  pure a _ := .of_pure a
  throw e _ := .of_throw e
  bind same each draft := .of_bind (same draft) each

section

variable {job other : Job} {f : Nat → Nat} (alike : Alike job other f)
include alike

/-- Declaring a schema, if what is inside is compiled alike. -/
theorem declare_under {inner within : Inner} (inside : (under f).Inside f inner within)
    (around : List Nat) (standIn : String) (schema : Nat) (entries : Entries) :
    (under f).related (job.declare inner around standIn schema entries)
      (other.declare within (around.map f) standIn (f schema) (entries.renumber f)) := by
  have injective := alike.graph.injective
  intro draft
  unfold Job.declare
  refine .of_get ?_
  rw [draft.nameOf?_renumber injective]
  cases draft.nameOf? schema with
  | some name => exact .of_pure name
  | none =>
    refine .of_get ?_
    rw [alike.titleName]
    refine .of_lift fun title => ?_
    rw [draft.freeName_renumber]
    refine .of_modify (by simp [Draft.renumber]) ?_
    simp only [alike.root, alike.options, commentOf_renumber alike.graph, injective.eq_iff]
    split
    · have body := Lockstep.body alike.toReadAlike
        (fun _ => inside.asks around (job.objectPositions entries))
        (inside around false (.node schema))
      refine .of_bind (body _) fun body after => ?_
      exact .of_modify (by simp [Draft.renumber]) (.of_pure _)
    · exact .of_pure _

/-- More depth makes no difference to an expression whose depth suffices. -/
theorem expression_under (chainsEnd : ChainsEnd job.graph (.node job.root)) {depth more : Nat}
    (le : depth ≤ more) : (under f).Inside f (job.expression depth) (other.expression more) := by
  induction depth generalizing more with
  | zero => exact fun _ _ _ _ => Or.inl rfl
  | succ depth ih =>
    obtain ⟨more, rfl⟩ : ∃ less, more = less + 1 := ⟨more - 1, by omega⟩
    intro around named v
    have inside := ih (show depth ≤ more by omega)
    rw [Job.expression, Job.expression, Job.step_eq_stepBy, Job.step_eq_stepBy]
    refine Lockstep.stepBy alike.toReadAlike inside (fun _ => Or.inr rfl) around v named ?_
      fun schema entries _ => declare_under alike inside around "" schema entries
    rw [alike.root]
    exact follow_renumber alike.graph chainsEnd v

theorem depth_le : job.depth ≤ other.depth := by
  have le := alike.graph.size_le
  unfold Job.depth
  omega

theorem declareDefinitions_under (chainsEnd : ChainsEnd job.graph (.node job.root))
    (entries : Entries) : (under f).related (job.declareDefinitions entries)
      (other.declareDefinitions (entries.renumber f)) := by
  have inside := expression_under alike chainsEnd (depth_le alike)
  unfold Job.declareDefinitions
  refine Lockstep.lift_bind (Entries.renumber f) (entriesUnder_renumber alike.graph entries _)
    fun definitions given => (under f).bind ?_ fun _ => (under f).pure _
  clear given
  induction definitions with
  | nil => exact (under f).pure _
  | cons definition definitions ih =>
    rw [Entries.renumber_cons, List.forIn_cons, List.forIn_cons]
    refine (under f).bind ?_ fun round => ?_
    · dsimp only
      rw [alike.graph.entries?]
      cases definition.2 with
      | scalar s => exact (under f).pure _
      | node schema =>
        cases job.graph.entries? (.node schema) with
        | none => exact (under f).pure _
        | some entries =>
          exact (under f).bind (declare_under alike inside [] "Definition" schema entries)
            fun _ => (under f).pure _
    · cases round with
      | done => exact (under f).pure _
      | yield => exact ih

/-- A whole compilation. -/
theorem run_under (chainsEnd : ChainsEnd job.graph (.node job.root)) :
    (under f).related job.run other.run := by
  have inside := expression_under alike chainsEnd (depth_le alike)
  unfold Job.run
  rw [alike.root, ← Value.renumber_node, alike.graph.entries?]
  cases job.graph.entries? (.node job.root) with
  | none => exact (under f).throw _
  | some entries =>
    simp only [Option.map_some]
    have title : ((entries.renumber f).get? "title").bind Value.str? =
        (entries.get? "title").bind Value.str? := by
      rw [Entries.get?_renumber]
      cases entries.get? "title" <;> simp
    rw [title, alike.options]
    cases (entries.get? "title").bind Value.str? with
    | none => exact (under f).throw _
    | some text =>
      refine (under f).bind (declare_under alike inside [] "" job.root entries) fun _ => ?_
      split
      · exact declareDefinitions_under alike chainsEnd entries
      · exact (under f).pure _

end

/-! ## All definitions together -/

section

variable {g h : Graph} {f : Nat → Nat} (renumbers : g.Renumbers h f)
variable (definitions : List (String × Value))
include renumbers

theorem addRoot_renumber : (addRoot g definitions).1.Renumbers
    (addRoot h (definitions.map fun made => (made.1, made.2.renumber f))).1 f := by
  have entries : definitionEntries (definitions.map fun made => (made.1, made.2.renumber f)) =
      (definitionEntries definitions).renumber f := by
    simp [definitionEntries, Entries.renumber]
  have root : rootEntries h = (rootEntries g).renumber f := by
    have first := renumbers.behind 0
    have second := renumbers.behind 1
    simp only [Nat.add_zero] at first
    simp [rootEntries, first, second, Value.str, Value.bool, Entries.renumber]
  rw [addRoot_eq, addRoot_eq, entries, root]
  exact ((renumbers.add (.mapping (definitionEntries definitions))).add
    (.mapping (definitionEntries definitions))).add (.mapping (rootEntries g))

theorem alike_whole : Alike (wholeJob g definitions)
    (wholeJob h (definitions.map fun made => (made.1, made.2.renumber f))) f :=
  ⟨⟨addRoot_renumber renumbers definitions, rfl,
    Display.value_renumber (addRoot_renumber renumbers definitions),
    Display.longIntegers.value_renumber (addRoot_renumber renumbers definitions)⟩,
    (renumbers.behind 2).symm⟩

/-- The definitions of the same schemas under other numbers compile to the same text with the same
warnings, or are refused for the same reason. -/
theorem wholeSource_renumber (chainsEnd : ChainsEnd (wholeJob g definitions).graph
      (.node (wholeJob g definitions).root)) :
    (wholeSource h (definitions.map fun made => (made.1, made.2.renumber f))).map
        (fun source => (source.text, source.warnings)) =
      (wholeSource g definitions).map fun source => (source.text, source.warnings) := by
  have titled : (wholeJob g definitions).graph.field? (.node (wholeJob g definitions).root)
      "title" = some (.str Api.topLevelTitle) := by
    rw [Graph.field?, Graph.entries?_of_get? get?_root]
    simp [rootEntries, Entries.get?_cons]
  have ends := run_ends chainsEnd titled
  rw [wholeSource_eq, wholeSource_eq]
  rcases run_under (alike_whole renumbers definitions) chainsEnd {} with endless | same
  · exact absurd (ends.fails _ endless) not_false
  · rw [show Draft.renumber f {} = {} from rfl] at same
    rw [same]
    cases (wholeJob g definitions).run.run {} with
    | error e => rfl
    | ok made =>
      refine congrArg Except.ok ?_
      dsimp only
      rw [Source.text, Source.text, Draft.texts_renumber renumbers.injective]
      rfl

end

end Compile

end Typewright
