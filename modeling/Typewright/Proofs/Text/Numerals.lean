import Typewright.Number.Numeral
import Typewright.Proofs.Schema.FirstFree
import Typewright.Proofs.Text.Blank

/-!
# Decimal numerals

The decimal numeral of a number is read as that number (`Numeral.int?_decimal`).
-/

namespace Typewright.Numeral

open Text

variable {c : Char} {digits : List Char}

theorem digit?_of_isDigit (digit : c.isDigit = true) :
    digit? 10 c = some (c.toNat - '0'.toNat) := by
  have range : 48 ≤ c.toNat ∧ c.toNat ≤ 57 := Char.isDigit_iff_toNat.1 digit
  have inside : '0' ≤ c ∧ c ≤ '9' := by
    rw [Char.isDigit, Bool.and_eq_true, decide_eq_true_eq, decide_eq_true_eq] at digit
    exact digit
  have small : c.toNat - '0'.toNat < 10 := by
    change c.toNat - 48 < 10
    omega
  have value : digitValue? c = some (c.toNat - '0'.toNat) := by
    rw [digitValue?, if_pos (by omega), if_pos inside]
  rw [digit?, value]
  exact if_pos small

theorem digitsFrom?_cons_of_isDigit (digit : c.isDigit = true) (value : Nat) (afterDigit : Bool)
    (rest : List Char) : digitsFrom? 10 value afterDigit (c :: rest) =
      digitsFrom? 10 (10 * value + (c.toNat - '0'.toNat)) true rest := by
  rw [digitsFrom?.eq_def]
  split
  · next heads => cases heads
  · next heads =>
    cases heads
    cases digit
  · next heads =>
    cases heads
    rw [digit?_of_isDigit digit]
    rfl

/-- Digits are read onto what was read before them. -/
theorem digitsFrom?_of_isDigit (all : ∀ c ∈ digits, c.isDigit = true) (value : Nat) :
    digitsFrom? 10 value true digits = some (Nat.ofDigitChars 10 digits value) := by
  induction digits generalizing value with
  | nil => rfl
  | cons c digits ih =>
    rw [digitsFrom?_cons_of_isDigit (all c List.mem_cons_self),
      ih fun d member => all d (List.mem_cons_of_mem _ member)]
    rfl

theorem nat?_of_isDigit (all : ∀ c ∈ digits, c.isDigit = true) (inhabited : digits ≠ []) :
    nat? 10 digits = some (Nat.ofDigitChars 10 digits 0) := by
  cases digits with
  | nil => exact absurd rfl inhabited
  | cons c digits =>
    rw [nat?, digitsFrom?_cons_of_isDigit (all c List.mem_cons_self),
      digitsFrom?_of_isDigit fun d member => all d (List.mem_cons_of_mem _ member)]
    rfl

theorem isBlank_of_isDigit (digit : c.isDigit = true) : isBlank c = false := by
  have range : 48 ≤ c.toNat ∧ c.toNat ≤ 57 := Char.isDigit_iff_toNat.1 digit
  simp only [isBlank, Bool.or_eq_false_iff, Bool.and_eq_false_iff, decide_eq_false_iff_not,
    beq_eq_false_iff_ne]
  omega

/-- A numeral has no blanks to be trimmed and neither a sign nor the mark of a base. -/
theorem int?_of_isDigit (all : ∀ c ∈ digits, c.isDigit = true) (inhabited : digits ≠ []) :
    int? 10 digits = some (Nat.ofDigitChars 10 digits 0 : Int) := by
  have trimmed : trim digits = digits := by
    have whole := trim_surrounded [] digits [] (by simp) (by simp)
      (fun c first => isBlank_of_isDigit (all c (List.mem_of_mem_head? first)))
      (fun c last => isBlank_of_isDigit (all c (List.mem_of_mem_getLast? last)))
    rwa [List.nil_append, List.append_nil] at whole
  have unmarked : dropBasePrefix 10 digits = digits := by
    fun_cases dropBasePrefix 10 digits with
    | case1 c marked _ => cases marked
    | case2 c _ marked _ => cases marked
    | case3 => rfl
    | case4 => rfl
  rw [int?, trimmed]
  split
  · next rest =>
    exact absurd (all '-' List.mem_cons_self) (by decide)
  · next rest =>
    exact absurd (all '+' List.mem_cons_self) (by decide)
  · rw [unmarked, nat?_of_isDigit all inhabited]
    rfl

/-- The numeral of a number is read as the number. -/
theorem int?_decimal (n : Nat) : int? 10 (decimal n).toList = some (n : Int) := by
  rw [int?_of_isDigit (fun c member => Naming.isDigit_of_mem_decimal member)
    (Naming.decimal_ne_empty n), decimal, String.toList_ofList, Nat.ofDigitChars_ten_toDigits]

end Typewright.Numeral
