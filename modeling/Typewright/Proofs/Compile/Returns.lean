import Typewright.Proofs.Compile.Sweeps

/-!
# When a compilation returns

Compiling a schema sweeps what it comes to from the schema (`Compile.Sweeps`). At the end of a whole
run nothing is left open, so a run gives a result exactly if all that it comes to from its root is
clean (`Compile.run_returns_iff`).
-/

namespace Typewright.Compile

section

variable {job : Job} {around within : List Nat} {before start after : Draft} {schema : Nat}

/-- What was compiled for a schema makes it one of those that are done. -/
theorem Swept.add (opens : ∀ b, Open within start b → b = schema ∨ Open around before b)
    (reads : job.Reads schema) (covers : Covers job within start after (job.asked schema)) :
    ∃ done, Swept job around before after done ∧ done schema := by
  obtain ⟨done, swept, each⟩ := covers
  have outward : ∀ b, done b ∨ Open within start b →
      (done b ∨ b = schema) ∨ Open around before b := by
    intro b either
    rcases either with isDone | isOpen
    · exact .inl (.inl isDone)
    · exact (opens b isOpen).imp_left .inr
  refine ⟨fun b => done b ∨ b = schema, ⟨fun b either => ?_, fun a b either leads => ?_,
    fun b member => outward b (swept.named b member)⟩, .inr rfl⟩
  · rcases either with isDone | rfl
    · exact swept.clean b isDone
    · exact ⟨reads, fun v member => (each v member).1⟩
  · rcases either with isDone | rfl
    · exact outward b (swept.closed a b isDone leads)
    · obtain ⟨v, asked, target⟩ := List.mem_filterMap.1 leads
      exact outward b ((each v asked).2 b target)

/-- A clean schema that asks for nothing is done at once. -/
theorem Swept.single (clean : job.Clean schema) (nothing : job.asked schema = []) :
    Swept job around before before (· = schema) where
  clean b same := same ▸ clean
  closed a b same leads := by
    rw [same, Job.Compiles, nothing] at leads
    cases leads
  named b member := .inr (.inr member)

/-- A step that compiles a schema. It fails only without end, or if it stumbles on the schema. -/
def Sweeps {α : Type} (job : Job) (around : List Nat) (before start : Draft) (schema : Nat)
    (was : Prop) (step : Compiling α) : Prop :=
  Ends start step (fun _ after => ∃ done, Swept job around before after done ∧ (done schema ∨ was))
    fun e => e = .endless ∨ job.Stumbles schema

theorem Handles.sweeps {α : Type} {step : Compiling α} {good was : Prop}
    (handles : Handles job within start good (job.asked schema) step)
    (same : job.Reads schema ↔ good)
    (opens : ∀ b, Open within start b → b = schema ∨ Open around before b) :
    Sweeps job around before start schema was step := by
  refine Ends.imp handles (fun _ after facts => ?_) fun e reason => ?_
  · obtain ⟨done, swept, isDone⟩ := Swept.add opens (same.2 facts.1) facts.2
    exact ⟨done, swept, .inl isDone⟩
  · rcases reason with endless | bad | ⟨v, asked, trips⟩
    · exact .inl endless
    · exact .inr (Job.stumbles_of_not_clean fun clean => bad (same.1 clean.reads))
    · exact .inr (Job.stumbles_of_trips asked trips)

theorem Sweeps.finish {α β : Type} {step : Compiling α} {next : α → β} {was : Prop}
    (sweeps : Sweeps job around before start schema was step) :
    Sweeps job around before start schema was (step >>= fun a => pure (next a)) :=
  Ends.of_bind (Ends.mono sweeps fun _ _ facts => Ends.of_pure facts)

/-- Compiling a value compiles the schema that it leads to. -/
theorem Sweeps.handles {α : Type} {step : Compiling α} {v : Value} {hopped : Bool}
    (sweeps : Sweeps job around start start schema (Open around start schema) step)
    (followed : follow job.graph (.node job.root) v = .ok (.node schema, hopped)) :
    Handles job around start True [v] step := by
  have target : job.target? v = some schema := by rw [Job.target?, followed]
  refine Ends.imp sweeps (fun _ after facts => ?_) fun e reason => ?_
  · obtain ⟨done, swept, met⟩ := facts
    refine ⟨trivial, done, swept, fun w member => ?_⟩
    obtain rfl := List.mem_singleton.1 member
    refine ⟨⟨_, followed⟩, fun other same => ?_⟩
    rw [target] at same
    cases same
    exact met
  · exact reason.imp_right fun stumbles =>
      .inr ⟨v, List.mem_singleton_self v, .inr ⟨schema, target, stumbles⟩⟩

end

/-- A schema is written out where it stands, unless it is being written out around. -/
def Job.writeOut (job : Job) (inner : Inner) (around : List Nat) (schema : Nat)
    (entries : Entries) : Compiling TypeExpr := do
  if around.contains schema then
    warn .unnamedRecursion
    return .unknown
  else job.written inner (schema :: around) entries

/-- A schema that is not declared as a constant enumeration is compiled by itself: where it is
written out, it and what is named since count as being compiled. -/
def WritesOut (job : Job) (inner : Inner) (schema : Nat) (entries : Entries) : Prop :=
  ∀ around before start, job.declaredChoices? schema entries = none →
    (∀ b, Open (schema :: around) start b → b = schema ∨ Open around before b) →
    Sweeps job around before start schema (schema ∈ around) (inner around false (.node schema))

section

variable {job : Job} {inner : Inner} {schema : Nat} {entries : Entries}
variable (inside : ∀ around v d, Handles job around d True [v] (inner around true v))
variable (found : job.graph.get? schema = some (.mapping entries))
include inside found

theorem sweeps_writeOut {around : List Nat} {before start : Draft}
    (none : job.declaredChoices? schema entries = Option.none)
    (opens : ∀ b, Open (schema :: around) start b → b = schema ∨ Open around before b) :
    Sweeps job around before start schema (schema ∈ around)
      (job.writeOut inner around schema entries) := by
  obtain ⟨same, asked⟩ := Job.reads_of_no_choices found none
  rw [Job.writeOut]
  split
  · next isAround =>
    rw [List.contains_iff_mem] at isAround
    refine Ends.of_bind (Ends.of_modify (Ends.of_pure ⟨fun _ => False, ?_, .inr isAround⟩))
    refine ⟨fun _ none => none.elim, fun _ _ none => none.elim, fun b member => .inr ?_⟩
    rcases opens b (.inr member) with rfl | isOpen
    · exact .inl isAround
    · exact isOpen
  · have handles : Handles job (schema :: around) start (job.ReadsWritten entries)
        (job.positions entries) (job.written inner (schema :: around) entries) :=
      handles_written (inside (schema :: around))
    rw [← asked] at handles
    exact handles.sweeps same opens

variable (itself : WritesOut job inner schema entries)
variable (titled : job.isTitled schema = true)
include itself titled

theorem sweeps_body {around : List Nat} {before start : Draft}
    (opens : ∀ b, Open (schema :: around) start b → b = schema ∨ Open around before b) :
    Sweeps job around before start schema (schema ∈ around)
      (job.body inner around schema entries) := by
  have outer : ∀ b, Open around start b → b = schema ∨ Open around before b := by
    intro b isOpen
    exact opens b (isOpen.imp_left (List.mem_cons_of_mem _))
  unfold Job.body
  split
  · next interface =>
    have none : job.declaredChoices? schema entries = Option.none := by
      rw [Job.declaredChoices?, if_pos titled, Job.choices?_of_isInterface interface]
    obtain ⟨same, asked⟩ := Job.reads_of_no_choices found none
    have handles : Handles job around start (job.ReadsObject entries)
        (job.objectPositions entries) (job.object inner around entries) :=
      handles_object (inside around)
    rw [← positions_of_isInterface interface, ← asked] at handles
    exact (handles.sweeps (same.trans (Job.readsWritten_of_isInterface interface)) outer).finish
  · split
    · next choices names enums given listed =>
      have chosen : job.declaredChoices? schema entries = some (names, choices) := by
        rw [Job.declaredChoices?, if_pos titled, Job.choices?, enums, given, listed]
      have handles : Handles job around start (job.ReadsMembers names choices)
          (job.asked schema) (do
            let values ← elements job.graph choices
            Error.refuseLong (job.hasLongMember names values)
            return DeclarationBody.constEnum (job.enumMembers names values)) := by
        rw [show job.asked schema = [] by simp [Job.asked, found, chosen], Job.ReadsMembers]
        refine .bind_lift (fun e failed good => ?_) fun values read => ?_
        · obtain ⟨values, read, _⟩ := good
          rw [failed] at read
          cases read
        · exact Handles.of_refuseLong.congr (by simp [read]) fun _ => Iff.rfl
      refine handles.sweeps ?_ outer
      rw [Job.reads_iff found, Job.ReadsEntries, chosen]
    · next others =>
      have none : job.declaredChoices? schema entries = none := by
        rw [Job.declaredChoices?, if_pos titled, Job.choices?]
        split
        · next choices names enums given listed =>
          exact (others choices names enums given listed).elim
        · rfl
      exact (itself around before start none opens).finish

end

section

variable {job : Job} (full : job.options.declareReferenced = true)
include full

/-- Declaring a schema with a title compiles it, unless it has a name. -/
theorem sweeps_declare {inner : Inner} {schema : Nat} {entries : Entries} {text : String}
    (inside : ∀ around v d, Handles job around d True [v] (inner around true v))
    (found : job.graph.get? schema = some (.mapping entries))
    (itself : WritesOut job inner schema entries)
    (titled : entries.get? "title" = some (.str text)) (around : List Nat) (draft : Draft)
    (standIn : String) :
    Sweeps job around draft draft schema (Open around draft schema)
      (job.declare inner around standIn schema entries) := by
  have isTitled : job.isTitled schema = true := by
    rw [Job.isTitled_eq found, titled]
    rfl
  unfold Job.declare
  refine Ends.of_bind (Ends.of_get ?_)
  split
  · next name already =>
    have given : schema ∈ draft.names.map (·.1) :=
      List.mem_map_of_mem (nameOf?_eq_some already)
    exact Ends.of_pure ⟨_, .refl draft, .inr (.inr given)⟩
  refine Ends.of_bind (Ends.of_get (Ends.of_bind (Ends.of_lift (fun title asked => ?_) ?_)))
  · have opens : ∀ b, Open (schema :: around) (draft.give schema title) b →
        b = schema ∨ Open around draft b := by
      intro b isOpen
      rcases isOpen with inAround | given
      · exact (List.mem_cons.1 inAround).imp_right .inl
      · rw [Draft.give, List.map_append, List.mem_append] at given
        rcases given with old | new
        · exact .inr (.inr old)
        · exact .inl (by simpa using new)
    refine Ends.of_bind (Ends.of_modify ?_)
    rw [if_pos (.inr full)]
    refine Ends.of_bind ((sweeps_body inside found itself isTitled opens).mono ?_)
    intro body after facts
    obtain ⟨done, swept, met⟩ := facts
    refine Ends.of_bind (Ends.of_modify (Ends.of_pure ⟨done, ?_, met.imp_right .inl⟩))
    exact ⟨swept.clean, swept.closed, swept.named⟩
  · intro e failed
    unfold Job.titleName at failed
    rw [titled] at failed
    cases failed

/-- What is compiled at a depth, by the name of a schema or written out. -/
structure Settles (job : Job) (depth : Nat) : Prop where
  inside : ∀ around v draft,
    Handles job around draft True [v] (job.expression depth around true v)
  itself : ∀ schema entries, job.graph.get? schema = some (.mapping entries) →
    entries.has Schema.refKey = false → entries ≠ [] →
    WritesOut job (job.expression depth) schema entries

/-- A value is compiled by the schema that it leads to. -/
theorem handles_step {inner : Inner}
    (inside : ∀ around v d, Handles job around d True [v] (inner around true v))
    (itself : ∀ schema entries, job.graph.get? schema = some (.mapping entries) →
      entries.has Schema.refKey = false → entries ≠ [] → WritesOut job inner schema entries)
    (around : List Nat) (v : Value) (draft : Draft) :
    Handles job around draft True [v] (job.step inner around true v) := by
  unfold Job.step
  cases followed : follow job.graph (.node job.root) v with
  | error e =>
    refine Ends.of_bind (Ends.of_lift (fun _ same => by cases same) fun other _ => .inr (.inr ?_))
    refine ⟨v, List.mem_singleton_self v, .inl fun follows => ?_⟩
    obtain ⟨target, leads⟩ := follows
    rw [followed] at leads
    cases leads
  | ok both =>
    obtain ⟨target, hopped⟩ := both
    rw [lift_ok_bind]
    dsimp only
    cases target with
    | scalar s =>
      have nothing : ∀ t, Handles job around draft True [v] (pure t : Compiling TypeExpr) := by
        intro t
        refine Ends.of_pure ⟨trivial, _, .refl draft, fun w member => ?_⟩
        obtain rfl := List.mem_singleton.1 member
        refine ⟨⟨_, followed⟩, fun schema target => ?_⟩
        rw [Job.target?, followed] at target
        cases target
      split
      · exact nothing _
      · exact nothing _
      · next same _ => cases same
      · exact nothing _
    | node schema =>
      refine Sweeps.handles ?_ followed
      have quiet : job.asked schema = [] → job.Clean schema → ∀ t,
          Sweeps job around draft draft schema (Open around draft schema)
            (pure t : Compiling TypeExpr) :=
        fun nothing clean t => Ends.of_pure ⟨_, .single clean nothing, .inl rfl⟩
      cases read : job.graph.entries? (.node schema) with
      | none =>
        have other : ∀ entries, job.graph.get? schema ≠ some (.mapping entries) := by
          intro entries found
          rw [Graph.entries?_of_get? found] at read
          cases read
        exact quiet (Job.asked_of_not_mapping other) (Job.clean_of_not_mapping other) _
      | some entries =>
        have found := Graph.get?_of_entries? read
        dsimp only
        split
        · next empty =>
          rw [List.isEmpty_iff] at empty
          obtain ⟨nothing, clean⟩ := Job.clean_of_empty (empty ▸ found)
          exact quiet nothing clean _
        next inhabited =>
        have plain := not_has_refKey_of_follow followed found
        have own := itself schema entries found plain (by simpa using inhabited)
        rw [Bool.true_or, Bool.true_and]
        split
        · next given =>
          obtain ⟨text, held⟩ := Option.isSome_iff_exists.1 given
          exact (sweeps_declare full inside found own (bind_str?_eq_some_iff.1 held) around draft
            "").finish
        · next untitled =>
          have bare : job.isTitled schema = false := by
            rw [Job.isTitled_eq found]
            simpa using untitled
          have opens : ∀ b, Open (schema :: around) draft b → b = schema ∨ Open around draft b := by
            intro b isOpen
            rcases isOpen with inAround | given
            · exact (List.mem_cons.1 inAround).imp_right .inl
            · exact .inr (.inr given)
          have none : job.declaredChoices? schema entries = Option.none := by
            simp [Job.declaredChoices?, bare]
          refine Ends.mono (sweeps_writeOut inside found none opens) fun t after facts => ?_
          obtain ⟨done, swept, met⟩ := facts
          exact ⟨done, swept, met.imp_right .inl⟩

theorem settles (depth : Nat) : Settles job depth := by
  induction depth with
  | zero => exact ⟨fun _ _ _ => Ends.of_throw (.inl rfl), fun _ _ _ _ _ _ _ _ _ _ =>
      Ends.of_throw (.inl rfl)⟩
  | succ depth ih =>
    refine ⟨handles_step full ih.inside ih.itself, ?_⟩
    intro schema entries found plain inhabited around before start none opens
    have followed : follow job.graph (.node job.root) (.node schema) = .ok (.node schema, false) :=
      follow_of_no_reference (by
        rw [Graph.field?_of_get? found]
        exact Entries.get?_eq_none_iff_not_has.2 plain)
    have step : job.expression (depth + 1) around false (.node schema) =
        job.writeOut (job.expression depth) around schema entries := by
      change job.step _ _ _ _ = _
      unfold Job.step
      rw [followed, lift_ok_bind]
      dsimp only
      rw [Graph.entries?_of_get? found]
      simp only [List.isEmpty_iff, inhabited, if_false]
      rfl
    rw [step]
    exact sweeps_writeOut ih.inside found none opens

end

/-! ## Whole runs -/

/-- A compilation that declares what it reaches gives a result exactly if all that it comes to from
its root is clean. -/
theorem run_returns_iff {job : Job} (full : job.options.declareReferenced = true)
    (reached : job.options.declareUnreachable = false)
    (chainsEnd : ChainsEnd job.graph (.node job.root)) {text : String}
    (titled : job.graph.field? (.node job.root) "title" = some (.str text))
    (plain : job.graph.field? (.node job.root) Schema.refKey = none) :
    (∃ draft, (Job.run job).run {} = .ok ((), draft)) ↔
      ∀ schema, Relation.ReflTransGen job.Compiles job.root schema → job.Clean schema := by
  obtain ⟨entries, read, held⟩ := Option.bind_eq_some_iff.1 titled
  have found := Graph.get?_of_entries? read
  have all := settles full job.depth
  have inhabited : entries ≠ [] := by
    intro empty
    rw [empty] at held
    cases held
  have sweeps : Sweeps job [] {} {} job.root (Open [] {} job.root) (Job.run job) := by
    have noRef : entries.has Schema.refKey = false := by
      rw [Graph.field?_of_get? found] at plain
      exact Entries.get?_eq_none_iff_not_has.1 plain
    unfold Job.run
    rw [read]
    dsimp only
    rw [held]
    refine Ends.of_bind (Ends.mono (sweeps_declare full all.inside found
      (all.itself job.root entries found noRef inhabited) held [] {} "") fun name after facts => ?_)
    rw [reached]
    exact Ends.of_pure facts
  constructor
  · intro returns schema path
    obtain ⟨draft, ran⟩ := returns
    obtain ⟨done, swept, met⟩ := sweeps.runs () draft ran
    have closed : ∀ schema, done schema ∨ Open [] {} schema → done schema := by
      intro schema either
      rcases either with isDone | inAround | given
      · exact isDone
      · cases inAround
      · cases given
    refine swept.clean schema ?_
    induction path with
    | refl => exact closed _ met
    | tail _ leads ih => exact closed _ (swept.closed _ _ ih leads)
  · intro clean
    cases ran : (Job.run job).run {} with
    | ok both => exact ⟨both.2, rfl⟩
    | error e =>
      rcases sweeps.fails e ran with endless | ⟨last, path, unclean⟩
      · have malformed := (run_ends chainsEnd titled).fails e ran
        rw [endless] at malformed
        exact malformed.elim
      · exact absurd (clean last path) unclean

end Typewright.Compile
