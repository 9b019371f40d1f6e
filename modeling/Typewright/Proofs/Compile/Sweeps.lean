import Typewright.Proofs.Compile.Reads

/-!
# Swept runs

A run is swept from its beginning to its end: what has been compiled in it is clean, and leads to
what has been compiled, to schemas that are being written out around it, and to schemas that had a
name before (`Compile.Swept`). The functions for the parts of a schema compile the positions that
the schema renders, or fail where what they read is not good (`Compile.Handles`).
-/

namespace Typewright.Compile

/-! ## Swept runs -/

/-- A schema that is being written out around, or had a name before. -/
def Open (around : List Nat) (before : Draft) (schema : Nat) : Prop :=
  schema ∈ around ∨ schema ∈ before.names.map (·.1)

/-- What was done in a run from one draft to another is clean, and leads to what was done or was
open before; and every name in the end is that of such a schema. -/
structure Swept (job : Job) (around : List Nat) (before after : Draft) (done : Nat → Prop) :
    Prop where
  clean : ∀ schema, done schema → job.Clean schema
  closed : ∀ a b, done a → job.Compiles a b → done b ∨ Open around before b
  named : ∀ schema ∈ after.names.map (·.1), done schema ∨ Open around before schema

/-- A run that compiled some values: they lead somewhere, and to schemas that it did or that were
open. -/
def Covers (job : Job) (around : List Nat) (before after : Draft) (vs : List Value) : Prop :=
  ∃ done, Swept job around before after done ∧ ∀ v ∈ vs, job.Follows v ∧
    ∀ schema, job.target? v = some schema → done schema ∨ Open around before schema

section

variable {job : Job} {around : List Nat} {before between after : Draft}

theorem Swept.refl (draft : Draft) : Swept job around draft draft fun _ => False where
  clean _ none := none.elim
  closed _ _ none := none.elim
  named _ member := .inr (.inr member)

/-- What is open in a later run was done in the earlier one, or was open before. -/
theorem Swept.of_open {done : Nat → Prop} (swept : Swept job around before between done)
    {schema : Nat} (isOpen : Open around between schema) :
    done schema ∨ Open around before schema := by
  rcases isOpen with inside | given
  · exact .inr (.inl inside)
  · exact swept.named schema given

theorem Swept.trans {done more : Nat → Prop} (first : Swept job around before between done)
    (second : Swept job around between after more) :
    Swept job around before after fun schema => done schema ∨ more schema := by
  have lift : ∀ schema, more schema ∨ Open around between schema →
      (done schema ∨ more schema) ∨ Open around before schema := by
    intro schema either
    rcases either with late | isOpen
    · exact .inl (.inr late)
    · exact (first.of_open isOpen).imp_left .inl
  refine ⟨fun schema either => either.elim (first.clean schema) (second.clean schema),
    fun a b either leads => ?_, fun schema member => lift schema (second.named schema member)⟩
  rcases either with early | late
  · exact (first.closed a b early leads).imp_left .inl
  · exact lift b (second.closed a b late leads)

theorem Covers.refl (draft : Draft) : Covers job around draft draft [] :=
  ⟨_, .refl draft, by simp⟩

theorem Covers.trans {vs ws : List Value} (first : Covers job around before between vs)
    (second : Covers job around between after ws) : Covers job around before after (vs ++ ws) := by
  obtain ⟨done, swept, each⟩ := first
  obtain ⟨more, sweptLater, eachLater⟩ := second
  refine ⟨_, swept.trans sweptLater, fun v member => ?_⟩
  rcases List.mem_append.1 member with early | late
  · obtain ⟨follows, targets⟩ := each v early
    exact ⟨follows, fun schema target => (targets schema target).imp_left .inl⟩
  · obtain ⟨follows, targets⟩ := eachLater v late
    refine ⟨follows, fun schema target => ?_⟩
    rcases targets schema target with done | isOpen
    · exact .inl (.inr done)
    · exact (swept.of_open isOpen).imp_left .inl

theorem Covers.subset {vs ws : List Value} (covers : Covers job around before after vs)
    (subset : ∀ v ∈ ws, v ∈ vs) : Covers job around before after ws := by
  obtain ⟨done, swept, each⟩ := covers
  exact ⟨done, swept, fun v member => each v (subset v member)⟩

theorem Covers.scalar {vs : List Value} (covers : Covers job around before after vs) (s : Scalar) :
    Covers job around before after (.scalar s :: vs) := by
  obtain ⟨done, swept, each⟩ := covers
  refine ⟨done, swept, fun v member => ?_⟩
  rcases List.mem_cons.1 member with rfl | old
  · refine ⟨Job.follows_scalar s, fun schema target => ?_⟩
    rw [Job.target?_scalar] at target
    cases target
  · exact each v old

end

/-! ## Steps -/

/-- What a step fails with that compiles some values: it has no end, what it reads is not good, or it
stumbles on one of the values. -/
def Blamed (job : Job) (good : Prop) (vs : List Value) (e : Error) : Prop :=
  e = .endless ∨ ¬ good ∨ ∃ v ∈ vs, job.Trips v

theorem Blamed.mono {job : Job} {good other : Prop} {vs ws : List Value} {e : Error}
    (blamed : Blamed job good vs e) (implies : other → good) (subset : ∀ v ∈ vs, v ∈ ws) :
    Blamed job other ws e := by
  rcases blamed with endless | bad | ⟨v, member, trips⟩
  · exact .inl endless
  · exact .inr (.inl fun holds => bad (implies holds))
  · exact .inr (.inr ⟨v, subset v member, trips⟩)

/-- A step compiles some values, if what it reads is good. Nothing else makes it fail but these. -/
def Handles {α : Type} (job : Job) (around : List Nat) (draft : Draft) (good : Prop)
    (vs : List Value) (step : Compiling α) : Prop :=
  Ends draft step (fun _ after => good ∧ Covers job around draft after vs) (Blamed job good vs)

namespace Handles

variable {α β : Type} {job : Job} {around : List Nat} {draft : Draft} {good other : Prop}
variable {vs ws : List Value}

theorem of_pure {a : α} (holds : good) : Handles job around draft good [] (pure a) :=
  Ends.of_pure ⟨holds, .refl draft⟩

theorem congr {step : Compiling α} (handles : Handles job around draft good vs step)
    (same : good ↔ other) (members : ∀ v, v ∈ vs ↔ v ∈ ws) :
    Handles job around draft other ws step :=
  Ends.imp handles (fun _ _ facts => ⟨same.1 facts.1, facts.2.subset fun v => (members v).2⟩)
    fun _ blamed => blamed.mono same.2 fun v => (members v).1

theorem bind {step : Compiling α} {next : α → Compiling β}
    (handles : Handles job around draft good vs step)
    (later : ∀ a between, Handles job around between other ws (next a)) :
    Handles job around draft (good ∧ other) (vs ++ ws) (step >>= next) := by
  refine Ends.of_bind (Ends.imp handles (fun a between facts => ?_) fun e blamed => ?_)
  · obtain ⟨holds, covers⟩ := facts
    exact Ends.imp (later a between)
      (fun _ after rest => ⟨⟨holds, rest.1⟩, covers.trans rest.2⟩)
      fun e blamed => blamed.mono And.right fun v => List.mem_append_right _
  · exact blamed.mono And.left fun v => List.mem_append_left _

/-- What follows something that is read, and is not good if it cannot be read. -/
theorem bind_lift {x : Except Error α} {next : α → Compiling β}
    (wrong : ∀ e, x = .error e → ¬ good)
    (later : ∀ a, x = .ok a → Handles job around draft good vs (next a)) :
    Handles job around draft good vs (liftM x >>= next) :=
  Ends.of_bind (Ends.of_lift later fun e failed => .inr (.inl (wrong e failed)))

/-- What is made of values is not good if one of them is an integer with too many digits. -/
theorem of_refuseLong {long : Bool} {a : α} :
    Handles job around draft (long = false) [] (do
      Error.refuseLong long
      return a) := by
  refine .bind_lift (fun e failed short => ?_) fun _ given => ?_
  · rw [short] at failed
    cases failed
  · cases long with
    | false => exact .of_pure rfl
    | true => cases given

theorem scalar {step : Compiling α} (handles : Handles job around draft good vs step) (s : Scalar) :
    Handles job around draft good (.scalar s :: vs) step :=
  Ends.imp handles (fun _ _ facts => ⟨facts.1, facts.2.scalar s⟩)
    fun _ blamed => blamed.mono id fun _ => List.mem_cons_of_mem _

/-- Going through a list. -/
theorem mapM {holds : α → Prop} {asks : α → List Value} {step : α → Compiling β} {l : List α}
    (each : ∀ x ∈ l, ∀ d, Handles job around d (holds x) (asks x) (step x)) :
    Handles job around draft (∀ x ∈ l, holds x) (l.flatMap asks) (l.mapM step) := by
  induction l generalizing draft with
  | nil => exact of_pure (by simp)
  | cons x l ih =>
    rw [List.mapM_cons]
    have rest : ∀ (y : β) between, Handles job around between ((∀ z ∈ l, holds z) ∧ True)
        (l.flatMap asks ++ []) (l.mapM step >>= fun ys => pure (y :: ys)) := fun y between =>
      (ih fun z member => each z (List.mem_cons_of_mem _ member)).bind fun _ _ => of_pure trivial
    exact ((each x List.mem_cons_self draft).bind rest).congr (by simp) (by simp)

/-- What is gone on with after a step that asks for nothing. -/
theorem finish {step : Compiling α} {next : α → β}
    (handles : Handles job around draft good vs step) :
    Handles job around draft good vs (step >>= fun a => pure (next a)) :=
  (handles.bind fun a between => of_pure trivial).congr (and_iff_left trivial) (by simp)

end Handles

/-! ## The parts of a schema -/

theorem entries_of_entriesUnder {g : Graph} {entries inside : Entries} {key : String}
    (given : entriesUnder g entries key = .ok inside) :
    ((entries.get? key).bind g.entries?).getD [] = inside := by
  unfold entriesUnder at given
  split at given
  · next none =>
    rw [none]
    exact Except.ok.inj given
  · next v held =>
    rw [held, Option.bind_some]
    split at given
    · next found =>
      rw [found]
      exact Except.ok.inj given
    · next none =>
      rw [none]
      split at given <;> cases given
      rfl

theorem patternChildren_of_entriesUnder {g : Graph} {entries patterns : Entries}
    (given : entriesUnder g entries "patternProperties" = .ok patterns) :
    Schema.patternChildren g entries = patterns.map (·.2) := by
  rw [Schema.patternChildren, entries_of_entriesUnder given]

theorem propertyChildren_of_entriesUnder {g : Graph} {entries declared : Entries}
    (given : entriesUnder g entries "properties" = .ok declared) :
    Schema.propertyChildren g entries = declared.map (·.2) := by
  have read := entries_of_entriesUnder given
  rw [Schema.propertyChildren]
  split
  · next properties held =>
    rw [held] at read
    rw [← read]
    rfl
  · next none =>
    rw [none] at read
    rw [← read]
    rfl

section

variable {job : Job} {inner : Inner} {around : List Nat} {entries : Entries} {draft : Draft}
variable (inside : ∀ v d, Handles job around d True [v] (inner around true v))
include inside

theorem handles_list (l : List Value) :
    Handles job around draft True l (l.mapM (inner around true)) :=
  (Handles.mapM fun v _ d => inside v d).congr (by simp) (by simp)

/-- The type for further properties, behind those for patterns. -/
theorem handles_additional (types : List TypeExpr) :
    Handles job around draft True (Schema.additionalChildren job.graph entries) (do
      let types ← match entries.get? "additionalProperties" with
        | none | some (.scalar (.bool true)) => pure (types ++ [.unknown])
        | some v =>
          if job.graph.isMapping v then do pure (types ++ [← inner around true v]) else pure types
      return if types.isEmpty then []
        else if job.options.strictIndexSignatures then [.union types, .undefined]
        else types) := by
  simp only [pure_bind, Schema.additionalChildren]
  cases entries.get? "additionalProperties" with
  | none => exact .of_pure trivial
  | some v =>
    cases v with
    | scalar s =>
      change Handles job around draft True [] _
      split
      · exact .of_pure trivial
      · exact .of_pure trivial
      · next same =>
        cases same
        exact .of_pure trivial
    | node id =>
      dsimp only
      split
      · exact .finish (inside _ draft)
      · exact .of_pure trivial

theorem handles_indexTypes :
    Handles job around draft
      (∃ patterns, entriesUnder job.graph entries "patternProperties" = .ok patterns)
      (job.indexPositions entries) (job.indexTypes inner around entries) := by
  rw [Job.indexTypes]
  refine .bind_lift (fun e failed good => ?_) fun patterns given => ?_
  · obtain ⟨patterns, read⟩ := good
    rw [failed] at read
    cases read
  have types : ∀ entry ∈ patterns, ∀ d,
      Handles job around d True [entry.2] (inner around true entry.2) :=
    fun entry _ d => inside entry.2 d
  refine ((Handles.mapM types).bind fun types _ => handles_additional inside types).congr
    (by simp [given]) fun v => ?_
  rw [Job.indexPositions, patternChildren_of_entriesUnder given]
  simp [List.mem_flatMap]

/-- The object type of a schema. -/
theorem handles_object :
    Handles job around draft (job.ReadsObject entries) (job.objectPositions entries)
      (job.object inner around entries) := by
  rw [Job.object]
  refine .bind_lift (fun e failed good => ?_) fun required given => ?_
  · obtain ⟨keys, read⟩ := good.required
    rw [failed] at read
    cases read
  refine .bind_lift (fun e failed good => ?_) fun declared listed => ?_
  · obtain ⟨declared, read, _⟩ := good.properties
    rw [failed] at read
    cases read
  have property : ∀ entry ∈ declared, ∀ d, Handles job around d (∃ text, entry.1 = .str text)
      [entry.2] (do
        let head ← job.propertyHead required entry.1 entry.2
        return (head, ← inner around true entry.2)) := by
    intro entry _ d
    refine .bind_lift (fun e failed good => ?_) fun head made => ?_
    · obtain ⟨text, key⟩ := good
      rw [key] at failed
      cases failed
    · have isText : ∃ text, entry.1 = .str text := by
        unfold Job.propertyHead at made
        split at made
        · next text same => exact ⟨text, same⟩
        · cases made
      exact (inside entry.2 d).finish.congr (by simp [isText]) (by simp)
  refine ((Handles.mapM property).bind fun properties between =>
    (handles_indexTypes inside).finish).congr ⟨fun facts => ?_, fun good => ?_⟩ fun v => ?_
  · exact ⟨⟨required, given⟩, ⟨declared, listed, facts.1⟩, facts.2⟩
  · obtain ⟨others, read, texts⟩ := good.properties
    rw [listed] at read
    cases read
    exact ⟨texts, good.patterns⟩
  · rw [Job.objectPositions, propertyChildren_of_entriesUnder listed]
    simp [List.mem_flatMap]

/-- The array or tuple type of a schema. -/
theorem handles_array :
    Handles job around draft True (job.arrayPositions entries)
      (job.array inner around entries) := by
  rw [Job.array, Job.arrayPositions]
  dsimp only
  cases job.graph.items? ((entries.get? "items").getD .null) with
  | some members =>
    have listed : ∀ d, Handles job around d True members (members.mapM (inner around true)) :=
      fun d => handles_list inside members
    have further : ∀ additional, Handles job around draft True (members ++ [additional]) (do
        let types ← members.mapM (inner around true)
        return TypeExpr.tuple types [← inner around true additional]) := fun additional =>
      ((listed draft).bind fun types between => (inside _ between).finish).congr (by simp)
        (by simp)
    dsimp only
    cases entries.get? "additionalItems" with
    | none => exact further _
    | some additional =>
      cases additional with
      | node id => exact further _
      | scalar s =>
        cases s with
        | bool b =>
          cases b with
          | false => exact (listed draft).finish
          | true => exact further _
        | _ => exact further _
  | none =>
    have spelled : ∀ {step : Compiling TypeExpr} {vs}, Handles job around draft True vs step →
        Handles job around draft True vs (do
          let item ← step
          if job.options.ignoreBounds then return .array item
          else
            let least := bound? (entries.get? "minItems")
            return boundedArray item least (bound? (entries.get? "maxItems"))) := by
      intro step vs handles
      cases job.options.ignoreBounds with
      | true => exact handles.finish
      | false => exact handles.finish
    dsimp only
    split
    · next missing =>
      rw [missing]
      exact spelled (.scalar (.of_pure trivial) .null)
    · exact spelled (inside _ draft)

/-- The type of a schema by one word of its `type`. -/
theorem handles_typed (type : Value) :
    Handles job around draft (job.ReadsTyped entries type) (job.typedPositions entries type)
      (job.typed inner around entries type) := by
  cases type with
  | node id => exact Ends.of_throw (.inr (.inl not_false))
  | scalar word =>
    have others : Handles job around draft
        (if word = .str "array" then True
          else if word = .str "object" ∨ entries.has "properties" ∨
              entries.has "additionalProperties" then job.ReadsObject entries
          else True)
        (if word = .str "array" then job.arrayPositions entries
          else if word = .str "object" ∨ entries.has "properties" ∨
              entries.has "additionalProperties" then job.objectPositions entries
          else if entries.has "items" then job.arrayPositions entries
          else [])
        (if word = .str "array" then job.array inner around entries
          else if word = .str "object" ∨ entries.has "properties" ∨
              entries.has "additionalProperties" then
            job.object inner around entries
          else if entries.has "items" then job.array inner around entries
          else return .unknown) := by
      by_cases isArray : word = .str "array"
      · simp only [if_pos isArray]
        exact handles_array inside
      simp only [if_neg isArray]
      by_cases isObject : word = .str "object" ∨ entries.has "properties" ∨
          entries.has "additionalProperties"
      · simp only [if_pos isObject]
        exact handles_object inside
      simp only [if_neg isObject]
      split
      · exact handles_array inside
      · exact .of_pure trivial
    cases word with
    | str s =>
      unfold Job.typed Job.ReadsTyped Job.typedPositions
      dsimp only
      cases Primitive.ofSchemaType? s with
      | some p => exact .of_pure trivial
      | none => exact others
    | _ => exact others

/-- The type of a schema that is written out. -/
theorem handles_written :
    Handles job around draft (job.ReadsWritten entries) (job.positions entries)
      (job.written inner around entries) := by
  have listed : ∀ members d, Handles job around d True members (members.mapM (inner around true)) :=
    fun members d => handles_list inside members
  unfold Job.written Job.ReadsWritten Job.positions
  cases entries.get? "tsType" with
  | some v => exact .of_refuseLong
  | none =>
  cases entries.get? "const" with
  | some v => exact .of_refuseLong
  | none =>
  cases job.listUnder? entries "enum" with
  | some values => exact .of_refuseLong
  | none =>
  cases job.listUnder? entries "allOf" with
  | some members =>
    dsimp only
    by_cases mixed : entries.has "properties" = true
    · simp only [if_pos mixed]
      exact ((listed members draft).bind fun parts between => (handles_object inside).finish).congr
        (by simp) (by simp)
    · simp only [if_neg mixed]
      exact (listed members draft).finish
  | none =>
  cases job.listUnder? entries "anyOf" with
  | some members => exact (listed members draft).finish
  | none =>
  cases job.listUnder? entries "oneOf" with
  | some members => exact (listed members draft).finish
  | none =>
  dsimp only
  cases job.graph.items? ((entries.get? "type").getD .null) with
  | some words => exact (Handles.mapM fun word _ d => handles_typed inside word).finish
  | none => exact handles_typed inside _

end

end Typewright.Compile
