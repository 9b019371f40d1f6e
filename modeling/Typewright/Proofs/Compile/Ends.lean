import Typewright.Proofs.Compile.Runs
import Typewright.Proofs.Outcome

/-!
# How steps of a compilation end

A step ends as said if every result that it gives is as said and every error that it fails with is
of the kinds said (`Compile.Ends`). There is one rule for each way in which steps are put together,
as for results alone.
-/

namespace Typewright.Compile

/-- A step run from a draft gives results as said and fails only in the ways said. -/
structure Ends {α : Type} (draft : Draft) (step : Compiling α) (post : α → Draft → Prop)
    (fault : Error → Prop) : Prop where
  runs : Runs draft step post
  fails : ∀ e, step.run draft = .error e → fault e

namespace Ends

variable {α β : Type} {draft : Draft} {fault : Error → Prop}

theorem imp {step : Compiling α} {post weaker : α → Draft → Prop} {wider : Error → Prop}
    (ends : Ends draft step post fault)
    (runs : ∀ result after, post result after → weaker result after)
    (fails : ∀ e, fault e → wider e) : Ends draft step weaker wider :=
  ⟨ends.runs.mono runs, fun e failed => fails e (ends.fails e failed)⟩

theorem mono {step : Compiling α} {post weaker : α → Draft → Prop}
    (ends : Ends draft step post fault)
    (runs : ∀ result after, post result after → weaker result after) :
    Ends draft step weaker fault :=
  ends.imp runs fun _ expected => expected

theorem of_pure {a : α} {post : α → Draft → Prop} (here : post a draft) :
    Ends draft (pure a) post fault :=
  ⟨Runs.of_pure here, fun e failed => by cases failed⟩

theorem of_bind {step : Compiling α} {next : α → Compiling β} {post : β → Draft → Prop}
    (ends : Ends draft step (fun a between => Ends between (next a) post fault) fault) :
    Ends draft (step >>= next) post fault := by
  refine ⟨Runs.of_bind fun a between ran => (ends.runs a between ran).runs, fun e failed => ?_⟩
  rw [StateT.run_bind] at failed
  cases first : step.run draft with
  | error other =>
    rw [first] at failed
    cases failed
    exact ends.fails e first
  | ok both =>
    rw [first] at failed
    exact (ends.runs both.1 both.2 first).fails e failed

theorem of_throw {e : Error} {post : α → Draft → Prop} (expected : fault e) :
    Ends draft (throw e) post fault := by
  refine ⟨Runs.of_throw, fun other failed => ?_⟩
  cases failed
  exact expected

theorem of_lift {x : Except Error α} {post : α → Draft → Prop}
    (here : ∀ a, x = .ok a → post a draft) (expected : ∀ e, x = .error e → fault e) :
    Ends draft (liftM x) post fault := by
  refine ⟨Runs.of_lift here, fun e failed => ?_⟩
  cases x with
  | error other =>
    cases failed
    exact expected e rfl
  | ok a => cases failed

theorem of_get {post : Draft → Draft → Prop} (here : post draft draft) :
    Ends draft get post fault :=
  ⟨Runs.of_get here, fun e failed => by cases failed⟩

theorem of_modify {f : Draft → Draft} {post : PUnit → Draft → Prop} (here : post ⟨⟩ (f draft)) :
    Ends draft (modify f) post fault :=
  ⟨Runs.of_modify here, fun e failed => by cases failed⟩

/-- Going through a list: what each element gives is as said, and stays so. -/
theorem of_mapM (related : Draft → Draft → Prop) (good : Draft → α → β → Prop)
    (refl : ∀ d, related d d)
    (trans : ∀ {a b c : Draft}, related a b → related b c → related a c)
    (stays : ∀ {a b : Draft} {x : α} {y : β}, related a b → good a x y → good b x y)
    (f : α → Compiling β) (l : List α)
    (each : ∀ x ∈ l, ∀ d, related draft d →
      Ends d (f x) (fun y after => related d after ∧ good after x y) fault) :
    Ends draft (l.mapM f) (fun ys after =>
      related draft after ∧ List.Forall₂ (good after) l ys) fault := by
  induction l generalizing draft with
  | nil => exact of_pure ⟨refl draft, .nil⟩
  | cons x l ih =>
    rw [List.mapM_cons]
    refine of_bind ((each x List.mem_cons_self draft (refl draft)).mono ?_)
    rintro y between ⟨grown, here⟩
    refine of_bind ((ih fun z member d later =>
      each z (List.mem_cons_of_mem _ member) d (trans grown later)).mono ?_)
    rintro ys after ⟨grownLater, all⟩
    exact of_pure ⟨trans grown grownLater, .cons (stays grownLater here) all⟩

/-- A loop over a list: what every round keeps holds at the end. -/
theorem of_forIn (keeps : Draft → Prop) {f : α → PUnit → Compiling (ForInStep PUnit)}
    (l : List α) (here : keeps draft)
    (each : ∀ x ∈ l, ∀ d, keeps d → Ends d (f x ⟨⟩) (fun _ after => keeps after) fault) :
    Ends draft (forIn l ⟨⟩ f) (fun _ after => keeps after) fault := by
  induction l generalizing draft with
  | nil => exact of_pure here
  | cons x l ih =>
    rw [List.forIn_cons]
    refine of_bind ((each x List.mem_cons_self draft here).mono ?_)
    intro round between kept
    cases round with
    | done => exact of_pure kept
    | yield => exact ih kept fun z member d later => each z (List.mem_cons_of_mem _ member) d later

end Ends

/-! ## Malformed values -/

/-- The errors that a compilation raises for a value of a wrong kind or in a wrong place. -/
def IsMalformed : Error → Prop
  | .wrongKind | .noSuchPart | .outOfRange | .unsupportedRef _ | .unresolvableRef _
  | .badValue _ => True
  | _ => False

instance : DecidablePred IsMalformed := fun e => by
  unfold IsMalformed
  split <;> infer_instance

theorem isMalformed_refuseLong {long : Bool} {e : Error}
    (failed : Error.refuseLong long = .error e) : IsMalformed e := by
  cases long <;> cases failed
  trivial

theorem isMalformed_elements {g : Graph} {v : Value} {e : Error}
    (failed : elements g v = .error e) : IsMalformed e := by
  unfold elements at failed
  split at failed <;> cases failed
  trivial

theorem isMalformed_requiredKeys {g : Graph} {entries : Entries} {e : Error}
    (failed : requiredKeys g entries = .error e) : IsMalformed e := by
  unfold requiredKeys at failed
  split at failed
  · cases failed
  · split at failed
    · rcases exists_of_bind_error failed with unlisted | ⟨values, _, failed⟩
      · exact isMalformed_elements unlisted
      · obtain ⟨x, _, wrong⟩ := exists_of_mapM_error failed
        cases x <;> cases wrong
        trivial
    · cases failed

theorem isMalformed_entriesUnder {g : Graph} {entries : Entries} {key : String} {e : Error}
    (failed : entriesUnder g entries key = .error e) : IsMalformed e := by
  unfold entriesUnder at failed
  split at failed
  · cases failed
  · split at failed
    · cases failed
    · split at failed <;> cases failed
      trivial

theorem isMalformed_propertyHead {job : Job} {required : List Scalar} {key : Scalar} {v : Value}
    {e : Error} (failed : job.propertyHead required key v = .error e) : IsMalformed e := by
  unfold Job.propertyHead at failed
  split at failed <;> cases failed
  trivial

theorem isMalformed_titleName {job : Job} {entries : Entries} {standIn : String} {e : Error}
    (failed : job.titleName entries standIn = .error e) : IsMalformed e := by
  unfold Job.titleName at failed
  simp only at failed
  split at failed
  · cases failed
  · split at failed <;> cases failed
    trivial

end Typewright.Compile
