import Typewright.Proofs.Compile.Terminates
import Typewright.Proofs.Compile.Whole

/-!
# Where bodies come from

Each finished body of a draft is what `Job.body` gave for the entries of its schema
(`Compile.IsBody`). So is the body of every declaration of a source
(`Compile.isBody_of_mem_declarations`), and what `Job.body` gives for entries of some shape is what
the declaration of such a schema declares.
-/

namespace Typewright.Compile

/-- A body with its comment that was compiled from the entries of its schema. -/
def IsBody (job : Job) (body : Nat × Comment × DeclarationBody) : Prop :=
  ∃ entries depth around before after, job.graph.get? body.1 = some (.mapping entries) ∧
    body.2.1 = commentOf job.graph entries ∧
    (job.body (job.expression depth) around body.1 entries).run before = .ok (body.2.2, after)

/-- What a step of a compilation does to the bodies of its draft. -/
structure AddsBodies (job : Job) (before after : Draft) : Prop where
  names : before.names <+: after.names
  bodies : ∃ more, after.bodies = before.bodies ++ more ∧ ∀ body ∈ more, IsBody job body

namespace AddsBodies

variable {job : Job} {before between after : Draft}

theorem refl (job : Job) (draft : Draft) : AddsBodies job draft draft :=
  ⟨List.prefix_rfl, [], by simp, by simp⟩

theorem trans (first : AddsBodies job before between) (second : AddsBodies job between after) :
    AddsBodies job before after := by
  obtain ⟨more, early, earlier⟩ := first.bodies
  obtain ⟨further, late, later⟩ := second.bodies
  refine ⟨first.names.trans second.names, more ++ further,
    by rw [late, early, List.append_assoc], fun body member => ?_⟩
  exact (List.mem_append.1 member).elim (earlier body) (later body)

/-- A body that is finished after its name was given. -/
theorem finish {schema : Nat} {title : String} {comment : Comment} {body : DeclarationBody}
    (inside : AddsBodies job (before.give schema title) after)
    (isBody : IsBody job (schema, comment, body)) :
    AddsBodies job before (after.finish schema comment body) := by
  obtain ⟨more, bodies, earlier⟩ := inside.bodies
  refine ⟨(List.prefix_append _ _).trans inside.names, more ++ [(schema, comment, body)], ?_,
    fun one member => ?_⟩
  · rw [Draft.finish, bodies, List.append_assoc]
    rfl
  · rcases List.mem_append.1 member with old | new
    · exact earlier one old
    · rw [List.mem_singleton.1 new]
      exact isBody

end AddsBodies

/-- A compilation agrees to finish bodies that it compiled. -/
def bodying (job : Job) : Contract where
  grows := AddsBodies job
  isRaw := fun _ => True
  fault := fun _ => True
  refl := AddsBodies.refl job
  trans := AddsBodies.trans
  names := AddsBodies.names
  warned _ _ := ⟨List.prefix_rfl, [], by simp, by simp⟩
  malformed _ _ := trivial

section

variable {job : Job}

theorem declare_adds {depth : Nat}
    (adds : ∀ around isNamed v d,
      (bodying job).Gives Anything d (job.expression depth around isNamed v))
    (around : List Nat) (standIn : String) (draft : Draft) {schema : Nat} {entries : Entries}
    (found : job.graph.get? schema = some (.mapping entries)) :
    Ends draft (job.declare (job.expression depth) around standIn schema entries)
      (fun name after => AddsBodies job draft after ∧ after.nameOf? schema = some name)
      fun _ => True := by
  have asks : ∀ d, (bodying job).Asks Anything job (job.expression depth) around entries d :=
    fun _ v _ d _ => adds around true v d
  refine (bodying job).declare (fun title _ _ _ => ⟨List.prefix_append _ _, [], ?_, by simp⟩)
    fun title _ _ => ⟨fun body after ran => ?_, fun _ _ => trivial⟩
  · rw [List.append_nil]
    rfl
  · have inside := (Contract.body (asks _) fun d _ => adds around false (.node schema) d).runs
      body after ran
    exact ⟨inside.1.names, inside.1.finish ⟨entries, depth, around, _, after, found, rfl, ran⟩⟩

theorem expression_adds (depth : Nat) (around : List Nat) (isNamed : Bool) (v : Value)
    (draft : Draft) :
    (bodying job).Gives Anything draft (job.expression depth around isNamed v) := by
  induction depth generalizing around isNamed v draft with
  | zero => exact Ends.of_throw trivial
  | succ depth ih =>
    refine (bodying job).step (fun _ _ => trivial)
      (fun schema entries _ _ _ found _ _ => ⟨trivial, declare_adds ih around "" draft found⟩)
      fun schema entries _ _ _ _ _ => ?_
    have asks : (bodying job).Asks Anything job (job.expression depth) (schema :: around) entries
        draft := fun w _ d _ => ih (schema :: around) true w d
    exact Contract.written asks fun _ _ => trivial

theorem declareDefinitions_adds (entries : Entries) (draft : Draft) :
    Ends draft (job.declareDefinitions entries) (fun _ after => AddsBodies job draft after)
      fun _ => True := by
  unfold Job.declareDefinitions
  refine Ends.of_bind (Ends.of_lift (fun definitions _ => ?_) fun _ _ => trivial)
  refine Ends.of_bind ((Ends.of_forIn (AddsBodies job draft) definitions (.refl job draft)
    ?_).mono fun _ after adds => Ends.of_pure adds)
  intro ⟨key, v⟩ member d earlier
  dsimp only
  split
  · next schema inside read =>
    have declared := declare_adds (expression_adds job.depth) [] "Definition" d
      (Graph.get?_of_entries? read)
    exact Ends.of_bind (declared.mono fun name after facts =>
      Ends.of_pure (earlier.trans facts.1))
  · exact Ends.of_pure earlier

/-- A whole compilation finishes bodies that it compiled. -/
theorem run_adds : Runs {} (Job.run job) fun _ after => AddsBodies job {} after := by
  unfold Job.run
  split
  · next entries read =>
    split
    · exact Runs.of_throw
    · refine Runs.of_bind ((declare_adds (expression_adds job.depth) [] "" {}
        (Graph.get?_of_entries? read)).runs.mono fun _ between facts => ?_)
      split
      · exact (declareDefinitions_adds entries between).runs.mono
          fun _ after later => facts.1.trans later
      · exact Runs.of_pure facts.1
  · exact Runs.of_throw

end

/-- The body of a declaration was compiled from the entries of its schema. -/
theorem isBody_of_mem_declarations {job : Job} {draft : Draft}
    (ran : (Job.run job).run {} = .ok ((), draft)) {d : Declaration}
    (member : d ∈ draft.declarations) : IsBody job (d.schema, d.comment, d.body) := by
  obtain ⟨_, isBody⟩ := exists_of_mem_declarations member
  obtain ⟨more, bodies, compiled⟩ := (run_adds () draft ran).bodies
  rw [bodies] at isBody
  exact compiled _ isBody

end Typewright.Compile
