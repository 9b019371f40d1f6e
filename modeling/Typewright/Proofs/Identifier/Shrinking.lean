import Typewright.Proofs.Text.Characters

/-!
# Passes shrink their text

After the illegal characters are blanked out, every stage of a pass drops underscores and blanks and
capitalises letters, and does nothing else (`Identifier.Shrinks`). The weight of a text counts its
characters and, once more, its small letters. A pass that changes its text lowers the weight
(`Identifier.weight_pass_lt`), which bounds the number of passes.
-/

namespace Typewright.Identifier

open Text

/-- A text comes from another by dropping underscores and blanks and capitalising letters. -/
inductive Shrinks : List Char → List Char → Prop
  | nil : Shrinks [] []
  | same {s t : List Char} (c : Char) : Shrinks s t → Shrinks (c :: s) (c :: t)
  | capital {s t : List Char} (c : Char) : Shrinks s t → Shrinks (c.toUpper :: s) (c :: t)
  | drop {s t : List Char} (c : Char) : (c = '_' ∨ isBlank c = true) → Shrinks s t →
      Shrinks s (c :: t)

/-- The number of characters, small letters counted twice. -/
def weight (t : List Char) : Nat := t.length + t.countP Char.isLower

/-- The number of characters that are not blank. -/
def inked (t : List Char) : Nat := t.countP fun c => !isBlank c

namespace Shrinks

theorem refl (t : List Char) : Shrinks t t := by
  induction t with
  | nil => exact .nil
  | cons c t ih => exact .same c ih

/-- What is dropped is not changed by capitalising. -/
theorem toUpper_of_dropped {c : Char} (dropped : c.toUpper = '_' ∨ isBlank c.toUpper = true) :
    c.toUpper = c := by
  by_cases lower : c.isLower
  · have part := isPart_toUpper (isPart_of_isStart (isStart_of_isLower lower))
    rcases dropped with same | blank
    · have range := Char.isLower_iff_toNat.1 lower
      have code := congrArg Char.toNat same
      rw [Char.toNat_toUpper_of_isLower lower] at code
      simp at code
      omega
    · rw [isBlank_eq_false_of_isPart part] at blank
      cases blank
  · exact Char.toUpper_of_not_isLower lower

theorem trans {r s t : List Char} (first : Shrinks r s) (second : Shrinks s t) : Shrinks r t := by
  induction second generalizing r with
  | nil => exact first
  | same c _ ih =>
    cases first with
    | same _ rest => exact .same c (ih rest)
    | capital _ rest => exact .capital c (ih rest)
    | drop _ dropped rest => exact .drop c dropped (ih rest)
  | capital c _ ih =>
    generalize image : c.toUpper = d at first
    cases first with
    | same _ rest =>
      rw [← image]
      exact .capital c (ih rest)
    | capital _ rest =>
      rw [← image, Char.toUpper_toUpper]
      exact .capital c (ih rest)
    | drop _ dropped rest =>
      rw [← image] at dropped
      rw [toUpper_of_dropped dropped] at dropped
      exact .drop c dropped (ih rest)
  | drop c dropped _ ih => exact .drop c dropped (ih first)

theorem length_le {s t : List Char} (shrinks : Shrinks s t) : s.length ≤ t.length := by
  induction shrinks with
  | nil => exact Nat.le_refl _
  | same c _ ih => simpa using ih
  | capital c _ ih => simpa using ih
  | drop c _ _ ih =>
    rw [List.length_cons]
    omega

theorem countP_isLower_le {s t : List Char} (shrinks : Shrinks s t) :
    s.countP Char.isLower ≤ t.countP Char.isLower := by
  induction shrinks with
  | nil => exact Nat.le_refl _
  | same c _ ih =>
    rw [List.countP_cons, List.countP_cons]
    omega
  | capital c _ ih =>
    rw [List.countP_cons, List.countP_cons, Char.isLower_toUpper]
    simp only [Bool.false_eq_true, if_false]
    omega
  | drop c _ _ ih =>
    rw [List.countP_cons]
    omega

theorem inked_le {s t : List Char} (shrinks : Shrinks s t) : inked s ≤ inked t := by
  induction shrinks with
  | nil => exact Nat.le_refl _
  | same c _ ih =>
    simp only [inked, List.countP_cons] at ih ⊢
    omega
  | capital c _ ih =>
    have ink : (if (!isBlank c.toUpper) = true then 1 else 0) ≤
        if (!isBlank c) = true then 1 else 0 := by
      by_cases lower : c.isLower
      · rw [isBlank_eq_false_of_isPart (isPart_of_isStart (isStart_of_isLower lower))]
        simp only [Bool.not_false, if_true]
        split <;> omega
      · exact Nat.le_of_eq (by rw [Char.toUpper_of_not_isLower lower])
    simp only [inked, List.countP_cons] at ih ⊢
    omega
  | drop c _ _ ih =>
    simp only [inked, List.countP_cons] at ih ⊢
    omega

theorem weight_le {s t : List Char} (shrinks : Shrinks s t) : weight s ≤ weight t := by
  have shorter := shrinks.length_le
  have fewer := shrinks.countP_isLower_le
  rw [weight, weight]
  omega

/-- A text of the same weight is the same text. -/
theorem eq_of_weight_le {s t : List Char} (shrinks : Shrinks s t) (heavy : weight t ≤ weight s) :
    s = t := by
  induction shrinks with
  | nil => rfl
  | same c _ ih =>
    simp only [weight, List.length_cons, List.countP_cons] at heavy ih
    rw [ih (by omega)]
  | capital c rest ih =>
    have lighter := rest.weight_le
    simp only [weight, List.length_cons, List.countP_cons, Char.isLower_toUpper,
      Bool.false_eq_true, if_false] at heavy ih lighter
    by_cases lower : c.isLower
    · rw [if_pos lower] at heavy
      omega
    · rw [if_neg lower] at heavy
      rw [ih (by omega), Char.toUpper_of_not_isLower lower]
  | drop c _ rest ih =>
    have lighter := rest.weight_le
    simp only [weight, List.length_cons, List.countP_cons] at heavy lighter
    omega

theorem antisymm {s t : List Char} (there : Shrinks s t) (back : Shrinks t s) : s = t :=
  there.eq_of_weight_le back.weight_le

end Shrinks

/-! ## The stages of a pass -/

theorem shrinks_capitaliseMarked (t : List Char) : Shrinks (capitaliseMarked t) t := by
  unfold capitaliseMarked
  split
  · next c rest =>
    by_cases lower : c.isLower
    · rw [if_pos lower]
      exact .same '_' (.capital c (Shrinks.refl rest))
    · rw [if_neg lower]
      exact Shrinks.refl _
  · exact Shrinks.refl t

theorem shrinks_joinSnake (t : List Char) : Shrinks (joinSnake t) t := by
  fun_induction joinSnake t with
  | case1 => exact .nil
  | case2 c => exact Shrinks.refl [c]
  | case3 c d rest joined ih => exact .drop c (Or.inl joined.1) (.capital d ih)
  | case4 c d rest _ ih => exact .same c ih

theorem shrinks_capitaliseAfter (cls : Char → Bool) (after : Bool) (t : List Char) :
    Shrinks (capitaliseAfter cls after t) t := by
  induction t generalizing after with
  | nil => exact .nil
  | cons c t ih =>
    cases after with
    | true => exact .capital c (ih (cls c))
    | false => exact .same c (ih (cls c))

theorem shrinks_filter (t : List Char) : Shrinks (t.filter fun c => !isBlank c) t := by
  induction t with
  | nil => exact .nil
  | cons c t ih =>
    by_cases blank : isBlank c = true
    · rw [List.filter_cons_of_neg (by simp [blank])]
      exact .drop c (Or.inr blank) ih
    · rw [List.filter_cons_of_pos (by simp [blank])]
      exact .same c ih

theorem shrinks_capitaliseFirst (t : List Char) : Shrinks (capitaliseFirst t) t := by
  cases t with
  | nil => exact .nil
  | cons c t => exact .capital c (Shrinks.refl t)

/-- A pass, from the blanked out text on. -/
theorem shrinks_pass (t : List Char) : Shrinks (pass t) (blankIllegal t) := by
  rw [pass]
  refine (shrinks_capitaliseFirst _).trans ((shrinks_filter _).trans ?_)
  refine (shrinks_capitaliseAfter _ _ _).trans ((shrinks_capitaliseAfter _ _ _).trans ?_)
  exact (shrinks_joinSnake _).trans (shrinks_capitaliseMarked _)

end Typewright.Identifier
