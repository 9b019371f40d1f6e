import Typewright.Identifier
import Typewright.Text.Case

/-!
# Character classes

The classes of characters that identifiers are made of, as ranges of code points, and how they meet
blanks and capitals. All facts about single characters go through these ranges.
-/

namespace Typewright

open Text

theorem Char.isLower_iff_toNat {c : Char} : c.isLower = true ↔ 97 ≤ c.toNat ∧ c.toNat ≤ 122 := by
  delta Char.isLower
  simp [UInt32.le_iff_toNat_le]

theorem Char.isUpper_iff_toNat {c : Char} : c.isUpper = true ↔ 65 ≤ c.toNat ∧ c.toNat ≤ 90 := by
  delta Char.isUpper
  simp [UInt32.le_iff_toNat_le]

theorem Char.isAlpha_iff_toNat {c : Char} :
    c.isAlpha = true ↔ (65 ≤ c.toNat ∧ c.toNat ≤ 90) ∨ (97 ≤ c.toNat ∧ c.toNat ≤ 122) := by
  delta Char.isAlpha
  rw [Bool.or_eq_true, Char.isUpper_iff_toNat, Char.isLower_iff_toNat]

theorem Char.isAlphanum_iff_toNat {c : Char} :
    c.isAlphanum = true ↔ ((65 ≤ c.toNat ∧ c.toNat ≤ 90) ∨ (97 ≤ c.toNat ∧ c.toNat ≤ 122)) ∨
      (48 ≤ c.toNat ∧ c.toNat ≤ 57) := by
  delta Char.isAlphanum
  rw [Bool.or_eq_true, Char.isAlpha_iff_toNat]
  exact or_congr_right Char.isDigit_iff_toNat

theorem Char.toUpper_of_not_isLower {c : Char} (other : ¬ c.isLower = true) : c.toUpper = c := by
  delta Char.isLower at other
  rw [Bool.and_eq_true, decide_eq_true_eq, decide_eq_true_eq] at other
  exact dif_neg other

theorem Char.toNat_toUpper_of_isLower {c : Char} (lower : c.isLower = true) :
    c.toUpper.toNat = c.toNat - 32 := by
  have range := Char.isLower_iff_toNat.1 lower
  delta Char.isLower at lower
  rw [Bool.and_eq_true, decide_eq_true_eq, decide_eq_true_eq] at lower
  have distance : ('A'.val - 'a'.val).toNat = 2 ^ 32 - 32 := by decide
  delta Char.toUpper
  rw [dif_pos lower]
  change (c.val + ('A'.val - 'a'.val)).toNat = c.toNat - 32
  rw [UInt32.toNat_add, distance, Char.toNat_val]
  omega

theorem Char.isLower_toUpper (c : Char) : c.toUpper.isLower = false := by
  rw [Bool.eq_false_iff]
  intro lower
  have capital := Char.isLower_iff_toNat.1 lower
  by_cases small : c.isLower
  · have range := Char.isLower_iff_toNat.1 small
    have code := Char.toNat_toUpper_of_isLower small
    omega
  · rw [Char.toUpper_of_not_isLower small] at lower
    exact small lower

theorem Char.toUpper_toUpper (c : Char) : c.toUpper.toUpper = c.toUpper :=
  Char.toUpper_of_not_isLower (by rw [Char.isLower_toUpper]; exact Bool.false_ne_true)

namespace Identifier

theorem isStart_iff_toNat {c : Char} :
    isStart c = true ↔ (65 ≤ c.toNat ∧ c.toNat ≤ 90) ∨ (97 ≤ c.toNat ∧ c.toNat ≤ 122) ∨
      c.toNat = 95 ∨ c.toNat = 36 := by
  simp only [isStart, Bool.or_eq_true, beq_iff_eq, Char.isAlpha_iff_toNat, ← Char.toNat_inj]
  change ((_ ∨ c.toNat = 95) ∨ c.toNat = 36) ↔ _
  omega

theorem isPart_iff {c : Char} :
    isPart c = true ↔ isStart c = true ∨ (48 ≤ c.toNat ∧ c.toNat ≤ 57) := by
  simp [isPart, Char.isDigit_iff_toNat]

theorem isPart_iff_toNat {c : Char} :
    isPart c = true ↔ (48 ≤ c.toNat ∧ c.toNat ≤ 57) ∨ (65 ≤ c.toNat ∧ c.toNat ≤ 90) ∨
      (97 ≤ c.toNat ∧ c.toNat ≤ 122) ∨ c.toNat = 95 ∨ c.toNat = 36 := by
  rw [isPart_iff, isStart_iff_toNat]
  omega

theorem isPart_of_isStart {c : Char} (start : isStart c = true) : isPart c = true :=
  isPart_iff.2 (Or.inl start)

theorem isPart_of_isDigit {c : Char} (digit : c.isDigit = true) : isPart c = true :=
  isPart_iff.2 (Or.inr (Char.isDigit_iff_toNat.1 digit))

theorem isStart_of_isLower {c : Char} (lower : c.isLower = true) : isStart c = true := by
  have range := Char.isLower_iff_toNat.1 lower
  exact isStart_iff_toNat.2 (Or.inr (Or.inl range))

theorem toNat_lt_of_isPart {c : Char} (part : isPart c = true) : c.toNat < 128 := by
  rw [isPart_iff_toNat] at part
  omega

/-- No blank can stand in a name. -/
theorem isBlank_eq_false_of_isPart {c : Char} (part : isPart c = true) : isBlank c = false := by
  rw [isPart_iff_toNat] at part
  simp [isBlank]
  omega

theorem isStart_toUpper {c : Char} (start : isStart c = true) : isStart c.toUpper = true := by
  by_cases lower : c.isLower
  · have range := Char.isLower_iff_toNat.1 lower
    have code := Char.toNat_toUpper_of_isLower lower
    rw [isStart_iff_toNat]
    omega
  · rwa [Char.toUpper_of_not_isLower lower]

theorem isPart_toUpper {c : Char} (part : isPart c = true) : isPart c.toUpper = true := by
  by_cases lower : c.isLower
  · exact isPart_of_isStart (isStart_toUpper (isStart_of_isLower lower))
  · rwa [Char.toUpper_of_not_isLower lower]

theorem isLower_eq_false_of_isDigit {c : Char} (digit : c.isDigit = true) :
    c.isLower = false := by
  have range := Char.isDigit_iff_toNat.1 digit
  rw [Bool.eq_false_iff]
  intro lower
  have letters := Char.isLower_iff_toNat.1 lower
  simp at range
  omega

end Identifier

end Typewright
