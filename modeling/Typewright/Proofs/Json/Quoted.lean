import Typewright.Json.Reader
import Typewright.Proofs.Text.Characters
import Typewright.Proofs.Text.Escapes

/-!
# Quoted texts read back

A quoted text is a literal that is read as the text itself, whatever stands behind it
(`Json.string?_quoted`). One step of the reader takes one character of the text
(`Json.literal?_escapeChar`), however that is escaped (`Text.escapeChar_cases`).
-/

namespace Typewright.Json

open Text

/-! ## Units -/

theorem isHexDigit_hexDigit : ∀ k < 16, isHexDigit (hexDigit k) = true := by
  decide

theorem unit?_hexDigits {unit : Nat} (small : unit < 0x10000) (rest : List Char) :
    unit? (hexDigits 4 unit ++ rest) = some (unit, rest) := by
  have value : hexValue (hexDigits 4 unit) = unit := hexValue_hexDigits small
  have digits : ∀ digit ∈ hexDigits 4 unit, isHexDigit digit = true :=
    forall_mem_hexDigits isHexDigit_hexDigit 4 unit
  obtain ⟨a, b, c, d, shape⟩ : ∃ a b c d, hexDigits 4 unit = [a, b, c, d] := by
    rw [hexDigits_succ, hexDigits_succ, hexDigits_succ, hexDigits_succ]
    exact ⟨_, _, _, _, rfl⟩
  rw [shape] at value digits ⊢
  change (if [a, b, c, d].all isHexDigit = true then some (hexValue [a, b, c, d], rest) else none) =
    _
  rw [if_pos (List.all_eq_true.2 digits), value]

/-- A unit that is no half of a pair is a character. -/
theorem joinUnits_of_whole {unit : Nat} (whole : unit < 0xD800 ∨ 0xE000 ≤ unit)
    (rest : List Char) : joinUnits unit rest = (Char.ofNat unit, rest) := by
  unfold joinUnits
  rw [if_neg (by omega), if_neg (by omega)]

/-- Two halves are a character beyond the first plane. -/
theorem joinUnits_pair {offset : Nat} (small : offset < 0x100000) (rest : List Char) :
    joinUnits (0xD800 + offset / 0x400) (escapeUnit (0xDC00 + offset % 0x400) ++ rest) =
      (Char.ofNat (0x10000 + offset), rest) := by
  have low : unit? (hexDigits 4 (0xDC00 + offset % 0x400) ++ rest) =
      some (0xDC00 + offset % 0x400, rest) := unit?_hexDigits (by omega) rest
  have sum : 0x10000 + (0xD800 + offset / 0x400 - 0xD800) * 0x400 +
      (0xDC00 + offset % 0x400 - 0xDC00) = 0x10000 + offset := by
    omega
  rw [escapeUnit, List.cons_append, List.cons_append, joinUnits, if_pos (by omega), low]
  dsimp only
  rw [if_pos (by omega), sum]

/-! ## Characters -/

/-- A character in front of what is read. -/
def readBefore (c : Char) (read : Option (List Char × List Char)) :
    Option (List Char × List Char) :=
  read.map fun (cs, rest) => (c :: cs, rest)

theorem literal?_short {e c : Char} (other : e ≠ 'u') (short : shortEscape? e = some c)
    (fuel : Nat) (rest : List Char) :
    literal? (fuel + 1) ('\\' :: e :: rest) = readBefore c (literal? fuel rest) := by
  rw [literal?]
  · rw [short]
    cases literal? fuel rest <;> rfl
  · exact other

theorem literal?_unit {unit : Nat} (small : unit < 0x10000) (fuel : Nat) (rest : List Char) :
    literal? (fuel + 1) (escapeUnit unit ++ rest) =
      readBefore (joinUnits unit rest).1 (literal? fuel (joinUnits unit rest).2) := by
  rw [escapeUnit, List.cons_append, List.cons_append, literal?, unit?_hexDigits small]
  simp only [Option.bind_eq_bind, Option.bind_some]
  cases literal? fuel (joinUnits unit rest).2 <;> rfl

theorem literal?_plain {c : Char} (noQuote : c ≠ '"') (noEscape : c ≠ '\\')
    (visible : 32 ≤ c.toNat) (fuel : Nat) (rest : List Char) :
    literal? (fuel + 1) (c :: rest) = readBefore c (literal? fuel rest) := by
  rw [literal?]
  · rw [if_neg (by omega)]
    cases literal? fuel rest <;> rfl
  all_goals simp [noQuote, noEscape]

/-- One step of the reader takes one character of a quoted text. -/
theorem literal?_escapeChar (fuel : Nat) (c : Char) (rest : List Char) :
    literal? (fuel + 1) (escapeChar c ++ rest) = readBefore c (literal? fuel rest) := by
  have own : Char.ofNat c.toNat = c := Char.ofNat_toNat c
  have letters : shortEscapes.all (fun short =>
      short.2 != 'u' && shortEscape? short.2 == some short.1) = true := by decide
  rcases escapeChar_cases c with ⟨e, short, shape⟩ | ⟨noQuote, noEscape, visible, shape⟩ |
    ⟨_, small, shape⟩ | ⟨offset, sum, bound, shape⟩
  · have letter := List.all_eq_true.1 letters _ short
    rw [Bool.and_eq_true, bne_iff_ne, beq_iff_eq] at letter
    rw [shape]
    exact literal?_short letter.1 letter.2 fuel rest
  · rw [shape]
    exact literal?_plain noQuote noEscape visible fuel rest
  · have whole : c.toNat < 0xD800 ∨ 0xE000 ≤ c.toNat := by
      rcases c.valid with low | high
      · exact Or.inl low
      · exact Or.inr high.1
    rw [shape, literal?_unit small, joinUnits_of_whole whole, own]
  · rw [shape, List.append_assoc, literal?_unit (by omega), joinUnits_pair bound, ← sum, own]

theorem escapeChar_ne_nil (c : Char) : escapeChar c ≠ [] := by
  rcases escapeChar_cases c with ⟨e, _, shape⟩ | ⟨_, _, _, shape⟩ | ⟨_, _, shape⟩ |
    ⟨offset, _, _, shape⟩
  all_goals simp [shape, escapeUnit]

/-! ## Texts -/

theorem length_le_flatMap_escapeChar (letters : List Char) :
    letters.length ≤ (letters.flatMap escapeChar).length := by
  induction letters with
  | nil => exact Nat.le_refl _
  | cons c letters ih =>
    have some := List.length_pos_iff.2 (escapeChar_ne_nil c)
    rw [List.flatMap_cons, List.length_append, List.length_cons]
    omega

theorem literal?_quoted {fuel : Nat} {letters : List Char} (enough : letters.length < fuel)
    (rest : List Char) :
    literal? fuel (letters.flatMap escapeChar ++ '"' :: rest) = some (letters, rest) := by
  induction letters generalizing fuel with
  | nil =>
    obtain ⟨more, rfl⟩ := Nat.exists_eq_add_of_lt enough
    rfl
  | cons c letters ih =>
    cases fuel with
    | zero => cases enough
    | succ fuel =>
      rw [List.length_cons, Nat.succ_lt_succ_iff] at enough
      rw [List.flatMap_cons, List.append_assoc, literal?_escapeChar, ih enough]
      rfl

/-- What stands behind the opening quote of a quoted text is read as the text. -/
theorem string?_quoted (text : String) (rest : List Char) :
    string? (text.toList.flatMap escapeChar ++ '"' :: rest) = some (text, rest) := by
  have long := length_le_flatMap_escapeChar text.toList
  have enough : text.toList.length <
      (text.toList.flatMap escapeChar ++ '"' :: rest).length + 1 := by
    rw [List.length_append]
    omega
  rw [string?, literal?_quoted enough]
  change some (String.ofList text.toList, rest) = _
  rw [String.ofList_toList]

end Typewright.Json
