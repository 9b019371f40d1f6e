import Mathlib.Data.List.Forall2
import Typewright.Compile.Render

/-!
# Runs of a compilation

What holds after every run of a step of a compilation that gives a result (`Compile.Runs`), and one
rule for each way in which steps are put together. A rule for going through a list takes a relation
between drafts that every single step keeps.
-/

namespace Typewright.Compile

theorem lift_ok_bind {α β : Type} (a : α) (next : α → Compiling β) :
    (liftM (Except.ok a : Except Error α) >>= next) = next a := rfl

/-- If a step run from a draft gives a result, the result and the draft after it are as said. -/
def Runs {α : Type} (draft : Draft) (step : Compiling α) (post : α → Draft → Prop) : Prop :=
  ∀ result after, step.run draft = .ok (result, after) → post result after

namespace Runs

variable {α β : Type} {draft : Draft}

theorem mono {step : Compiling α} {post weaker : α → Draft → Prop} (runs : Runs draft step post)
    (imp : ∀ result after, post result after → weaker result after) : Runs draft step weaker :=
  fun result after ran => imp result after (runs result after ran)

theorem of_pure {a : α} {post : α → Draft → Prop} (here : post a draft) :
    Runs draft (pure a) post := by
  intro result after ran
  cases ran
  exact here

theorem of_bind {step : Compiling α} {next : α → Compiling β} {post : β → Draft → Prop}
    (runs : Runs draft step fun a between => Runs between (next a) post) :
    Runs draft (step >>= next) post := by
  intro result after ran
  rw [StateT.run_bind] at ran
  cases first : step.run draft with
  | error e =>
    rw [first] at ran
    cases ran
  | ok both =>
    rw [first] at ran
    exact runs both.1 both.2 first result after ran

theorem of_throw {e : Error} {post : α → Draft → Prop} :
    Runs draft (throw e) post := by
  intro result after ran
  cases ran

theorem of_lift {x : Except Error α} {post : α → Draft → Prop}
    (here : ∀ a, x = .ok a → post a draft) : Runs draft (liftM x) post := by
  intro result after ran
  cases x with
  | error e => cases ran
  | ok a =>
    injection ran with same
    injection same with first second
    rw [← first, ← second]
    exact here a rfl

theorem of_get {post : Draft → Draft → Prop} (here : post draft draft) :
    Runs draft get post := by
  intro result after ran
  cases ran
  exact here

theorem of_modify {f : Draft → Draft} {post : PUnit → Draft → Prop} (here : post ⟨⟩ (f draft)) :
    Runs draft (modify f) post := by
  intro result after ran
  cases ran
  exact here

/-- Going through a list: what each element gives is as said, and stays so. -/
theorem of_mapM (related : Draft → Draft → Prop) (good : Draft → α → β → Prop)
    (refl : ∀ d, related d d)
    (trans : ∀ {a b c : Draft}, related a b → related b c → related a c)
    (stays : ∀ {a b : Draft} {x : α} {y : β}, related a b → good a x y → good b x y)
    (f : α → Compiling β) (l : List α)
    (each : ∀ x ∈ l, ∀ d, related draft d → Runs d (f x) fun y after =>
      related d after ∧ good after x y) :
    Runs draft (l.mapM f) fun ys after =>
      related draft after ∧ List.Forall₂ (good after) l ys := by
  induction l generalizing draft with
  | nil => exact Runs.of_pure ⟨refl draft, .nil⟩
  | cons x l ih =>
    rw [List.mapM_cons]
    refine Runs.of_bind ((each x List.mem_cons_self draft (refl draft)).mono ?_)
    rintro y between ⟨grown, here⟩
    refine Runs.of_bind ((ih fun z member d later =>
      each z (List.mem_cons_of_mem _ member) d (trans grown later)).mono ?_)
    rintro ys after ⟨grownLater, all⟩
    exact Runs.of_pure ⟨trans grown grownLater, .cons (stays grownLater here) all⟩

end Runs

end Typewright.Compile
