import Typewright.Error

/-!
# Steps that may fail

What a result of steps put together says about each of them.
-/

namespace Typewright

variable {ε α β : Type}

/-- If one step after another gives a result, so did the first. -/
theorem exists_of_bind_ok {x : Except ε α} {next : α → Except ε β} {b : β}
    (given : x >>= next = .ok b) : ∃ a, x = .ok a ∧ next a = .ok b := by
  cases x with
  | error e => cases given
  | ok a => exact ⟨a, rfl, given⟩

/-- A check for integers with too many digits passes if there are none. -/
theorem refuseLong_eq_ok_iff {long : Bool} : Error.refuseLong long = .ok () ↔ long = false := by
  cases long
  · exact iff_of_true rfl rfl
  · exact iff_of_false nofun nofun

theorem map_after_refuseLong {long : Bool} (f : α → β) (x : Except Error α) :
    (do
      Error.refuseLong long
      x.map f) = (do
      Error.refuseLong long
      x).map f := by
  cases long <;> rfl

/-- What can be computed of a result says that there is one. -/
theorem exists_of_toOption_map {x : Except Error α} {f : α → β} {b : β}
    (computed : x.toOption.map f = some b) : ∃ a, x = .ok a ∧ f a = b := by
  cases x with
  | error e => cases computed
  | ok a => exact ⟨a, rfl, by injection computed⟩

/-- A computed result is a result. -/
theorem eq_ok_of_toOption {x : Except ε α} {a : α} (computed : x.toOption = some a) : x = .ok a := by
  cases x with
  | error e => cases computed
  | ok b => exact congrArg Except.ok (Option.some.inj computed)

/-- If one step after another fails, the first failed or gave a result for which the next fails. -/
theorem exists_of_bind_error {x : Except ε α} {next : α → Except ε β} {e : ε}
    (failed : x >>= next = .error e) : x = .error e ∨ ∃ a, x = .ok a ∧ next a = .error e := by
  cases x with
  | error other =>
    cases failed
    exact Or.inl rfl
  | ok a => exact Or.inr ⟨a, rfl, failed⟩

theorem exists_of_map_ok {x : Except ε α} {f : α → β} {b : β} (given : x.map f = .ok b) :
    ∃ a, x = .ok a ∧ f a = b := by
  cases x with
  | error e => cases given
  | ok a => exact ⟨a, rfl, Except.ok.inj given⟩

theorem error_of_map_error {x : Except ε α} {f : α → β} {e : ε} (failed : x.map f = .error e) :
    x = .error e := by
  cases x with
  | error other => exact congrArg Except.error (Except.error.inj failed)
  | ok a => cases failed

/-- Going through the images of a list gives the images of what going through the list gives, if each
step does. -/
theorem mapM_map_eq {γ δ : Type} {f : α → Except Error β} {other : γ → Except Error δ}
    {r : α → γ} {s : β → δ} (l : List α) (each : ∀ x ∈ l, other (r x) = (f x).map s) :
    (l.map r).mapM other = (l.mapM f).map (List.map s) := by
  induction l with
  | nil => rfl
  | cons x l ih =>
    rw [List.map_cons, List.mapM_cons, List.mapM_cons, each x List.mem_cons_self,
      ih fun y member => each y (List.mem_cons_of_mem _ member)]
    cases f x with
    | error e => rfl
    | ok y =>
      change ((l.mapM f).map (List.map s) >>= fun ys => pure (s y :: ys)) =
        (l.mapM f >>= fun ys => pure (y :: ys)).map (List.map s)
      cases l.mapM f <;> rfl

/-- Every result of going through a list comes from an element of it. -/
theorem exists_of_mem_mapM {f : α → Except Error β} {l : List α} {ys : List β}
    (given : l.mapM f = .ok ys) {y : β} (member : y ∈ ys) : ∃ x ∈ l, f x = .ok y := by
  induction l generalizing ys with
  | nil =>
    cases given
    cases member
  | cons x l ih =>
    rw [List.mapM_cons] at given
    obtain ⟨z, first, given⟩ := exists_of_bind_ok given
    obtain ⟨zs, rest, given⟩ := exists_of_bind_ok given
    cases given
    rcases List.mem_cons.1 member with rfl | later
    · exact ⟨x, List.mem_cons_self, first⟩
    · obtain ⟨w, present, same⟩ := ih rest later
      exact ⟨w, List.mem_cons_of_mem _ present, same⟩

/-- Every element of a list that was gone through has a result. -/
theorem exists_result_of_mem {f : α → Except ε β} {l : List α} {ys : List β}
    (given : l.mapM f = .ok ys) {x : α} (member : x ∈ l) : ∃ y ∈ ys, f x = .ok y := by
  induction l generalizing ys with
  | nil => cases member
  | cons z l ih =>
    rw [List.mapM_cons] at given
    obtain ⟨y, first, given⟩ := exists_of_bind_ok given
    obtain ⟨zs, rest, given⟩ := exists_of_bind_ok given
    cases given
    rcases List.mem_cons.1 member with rfl | later
    · exact ⟨y, List.mem_cons_self, first⟩
    · obtain ⟨w, present, same⟩ := ih rest later
      exact ⟨w, List.mem_cons_of_mem _ present, same⟩

/-- What holds between different elements of a list that was gone through holds between their
results. -/
theorem pairwise_of_mapM {R : α → α → Prop} {S : β → β → Prop} {f : α → Except Error β} {l : List α}
    {ys : List β} (given : l.mapM f = .ok ys) (between : l.Pairwise R)
    (each : ∀ x z y w, R x z → f x = .ok y → f z = .ok w → S y w) : ys.Pairwise S := by
  induction l generalizing ys with
  | nil =>
    cases given
    exact .nil
  | cons x l ih =>
    rw [List.mapM_cons] at given
    obtain ⟨y, first, given⟩ := exists_of_bind_ok given
    obtain ⟨zs, rest, given⟩ := exists_of_bind_ok given
    cases given
    rw [List.pairwise_cons] at between
    refine .cons (fun w inRest => ?_) (ih rest between.2)
    obtain ⟨z, member, made⟩ := exists_of_mem_mapM rest inRest
    exact each x z y w (between.1 z member) first made

/-- If going through a list fails, it fails at the first of its elements without a result. -/
theorem exists_first_of_mapM_error {f : α → Except ε β} {l : List α} {e : ε}
    (failed : l.mapM f = .error e) : ∃ front x back, l = front ++ x :: back ∧
      (∀ y ∈ front, ∃ result, f y = .ok result) ∧ f x = .error e := by
  induction l with
  | nil => cases failed
  | cons x l ih =>
    rw [List.mapM_cons] at failed
    rcases exists_of_bind_error failed with here | ⟨y, first, failed⟩
    · exact ⟨[], x, l, rfl, by simp, here⟩
    · rcases exists_of_bind_error failed with rest | ⟨ys, _, failed⟩
      · obtain ⟨front, z, back, rfl, before, wrong⟩ := ih rest
        exact ⟨x :: front, z, back, rfl, List.forall_mem_cons.2 ⟨⟨y, first⟩, before⟩, wrong⟩
      · cases failed

/-- If going through a list fails, it fails at one of its elements. -/
theorem exists_of_mapM_error {f : α → Except ε β} {l : List α} {e : ε}
    (failed : l.mapM f = .error e) : ∃ x ∈ l, f x = .error e := by
  obtain ⟨front, x, back, rfl, _, wrong⟩ := exists_first_of_mapM_error failed
  exact ⟨x, by simp, wrong⟩

/-- Going through a list gives a result if every step does. -/
theorem exists_mapM_ok {f : α → Except ε β} {l : List α} (each : ∀ x ∈ l, ∃ y, f x = .ok y) :
    ∃ ys, l.mapM f = .ok ys := by
  cases made : l.mapM f with
  | ok ys => exact ⟨ys, rfl⟩
  | error e =>
    obtain ⟨x, member, failed⟩ := exists_of_mapM_error made
    obtain ⟨y, given⟩ := each x member
    rw [given] at failed
    cases failed

end Typewright
