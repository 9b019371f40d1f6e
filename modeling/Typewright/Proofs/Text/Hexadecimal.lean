import Mathlib.Algebra.Group.Nat.Defs
import Typewright.Text.Quoted

/-!
# Hexadecimal digits

What holds of the sixteen digits holds of every numeral (`Text.forall_mem_hexDigits`), and a numeral
that is wide enough has the value that it was made from (`Text.hexValue_hexDigits`).
-/

namespace Typewright.Text

theorem length_hexDigits (width n : Nat) : (hexDigits width n).length = width := by
  induction width generalizing n with
  | zero => rfl
  | succ width ih => rw [hexDigits, List.length_append, ih, List.length_singleton]

theorem forall_mem_hexDigits {holds : Char → Prop} (all : ∀ k < 16, holds (hexDigit k))
    (width n : Nat) : ∀ c ∈ hexDigits width n, holds c := by
  induction width generalizing n with
  | zero => simp [hexDigits]
  | succ width ih =>
    intro c member
    rw [hexDigits, List.mem_append, List.mem_singleton] at member
    rcases member with earlier | rfl
    · exact ih _ c earlier
    · exact all _ (Nat.mod_lt n (by decide))

/-- A numeral by its first digit. -/
theorem hexDigits_succ (width n : Nat) :
    hexDigits (width + 1) n = hexDigit (n / 16 ^ width % 16) :: hexDigits width n := by
  induction width generalizing n with
  | zero =>
    rw [hexDigits, Nat.pow_zero, Nat.div_one]
    rfl
  | succ width ih =>
    rw [hexDigits, ih, Nat.div_div_eq_div_mul, ← Nat.pow_succ']
    rfl

theorem hexDigits_spec (width n : Nat) :
    ∀ c ∈ hexDigits width n, c ≠ '"' ∧ c ≠ '\\' ∧ c ≠ '\n' :=
  forall_mem_hexDigits (by decide) width n

theorem hexDigitValue_hexDigit : ∀ k < 16, hexDigitValue (hexDigit k) = k := by
  decide

theorem hexValue_append_singleton (digits : List Char) (digit : Char) :
    hexValue (digits ++ [digit]) = 16 * hexValue digits + hexDigitValue digit := by
  rw [hexValue, List.foldl_append]
  rfl

theorem hexValue_hexDigits {width n : Nat} (small : n < 16 ^ width) :
    hexValue (hexDigits width n) = n := by
  induction width generalizing n with
  | zero =>
    rw [Nat.pow_zero] at small
    rw [Nat.lt_one_iff.1 small]
    rfl
  | succ width ih =>
    rw [Nat.pow_succ] at small
    rw [hexDigits, hexValue_append_singleton, ih (Nat.div_lt_of_lt_mul (by omega)),
      hexDigitValue_hexDigit _ (Nat.mod_lt n (by decide))]
    omega

end Typewright.Text
