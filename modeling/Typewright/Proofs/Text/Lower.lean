import Typewright.Proofs.Text.Characters

/-!
# Lower case of plain text

On ASCII text the lower-case form changes each capital and nothing else, character by character
(`Text.toList_lower`).
-/

namespace Typewright

theorem Char.toLower_of_not_isUpper {c : Char} (other : ¬ c.isUpper = true) : c.toLower = c := by
  delta Char.isUpper at other
  rw [decide_eq_true_eq] at other
  exact dif_neg other

theorem Char.toNat_toLower_of_isUpper {c : Char} (upper : c.isUpper = true) :
    c.toLower.toNat = c.toNat + 32 := by
  have range := Char.isUpper_iff_toNat.1 upper
  delta Char.isUpper at upper
  rw [decide_eq_true_eq] at upper
  have distance : ('a'.val - 'A'.val).toNat = 32 := by decide
  delta Char.toLower
  rw [dif_pos upper]
  change (c.val + ('a'.val - 'A'.val)).toNat = c.toNat + 32
  rw [UInt32.toNat_add, distance, Char.toNat_val]
  omega

/-- Only a capital changes, and it becomes a small letter. -/
theorem Char.toLower_cases (c : Char) : c.toLower = c ∨
    (65 ≤ c.toNat ∧ c.toNat ≤ 90 ∧ c.toLower.toNat = c.toNat + 32) := by
  by_cases upper : c.isUpper
  · have range := Char.isUpper_iff_toNat.1 upper
    exact Or.inr ⟨range.1, range.2, Char.toNat_toLower_of_isUpper upper⟩
  · exact Or.inl (Char.toLower_of_not_isUpper upper)

namespace Text

/-- Text of ASCII characters. -/
def IsAscii (t : List Char) : Prop :=
  ∀ c ∈ t, c.toNat < 128

theorem lowerAfter_of_isAscii {t : List Char} (before : List Char) (ascii : IsAscii t) :
    lowerAfter before t = t.map Char.toLower := by
  induction t generalizing before with
  | nil => rfl
  | cons c t ih =>
    have small : c.toNat < 128 := ascii c List.mem_cons_self
    have notSigma : ¬ c.toNat = 0x3A3 := by omega
    rw [lowerAfter, if_neg notSigma, lowerChar, if_pos small,
      ih _ fun d member => ascii d (List.mem_cons_of_mem _ member)]
    rfl

/-- The lower-case form of an ASCII text. -/
theorem toList_lower {text : String} (ascii : IsAscii text.toList) :
    (lower text).toList = text.toList.map Char.toLower := by
  rw [lower, String.toList_ofList, lowerAfter_of_isAscii _ ascii]

theorem isAscii_of_isPart {t : List Char} (part : ∀ c ∈ t, Identifier.isPart c = true) :
    IsAscii t :=
  fun c member => Identifier.toNat_lt_of_isPart (part c member)

theorem lower_ne_empty {text : String} (ascii : IsAscii text.toList) (inhabited : text ≠ "") :
    lower text ≠ "" := by
  intro empty
  have letters := toList_lower ascii
  rw [empty] at letters
  have none : text.toList = [] := List.map_eq_nil_iff.1 letters.symm
  exact inhabited (String.toList_inj.1 none)

end Text

end Typewright
