import Mathlib.Data.List.Perm.Subperm
import Mathlib.Data.List.Nodup
import Typewright.Proofs.Identifier.Settled
import Typewright.Proofs.Text.Lower
import Typewright.Schema.Naming

/-!
# Names and their suffixed forms

Cleaned titles are names (`Naming.isName_cleanName`), and so are their suffixed forms. The suffixed
forms of a name are all different, also in lower case, so that one more form than there are taken
words is enough to find one that is free (`Naming.firstFree_spec`).
-/

namespace Typewright.Naming

open Text

/-- What names are: settled identifiers that are not empty. -/
structure IsName (name : String) : Prop where
  settled : Identifier.Settled name.toList
  inhabited : name ≠ ""

namespace IsName

theorem isAscii {name : String} (isName : IsName name) : IsAscii name.toList :=
  isAscii_of_isPart isName.settled.part

theorem lower_ne_empty {name : String} (isName : IsName name) : lower name ≠ "" :=
  Text.lower_ne_empty isName.isAscii isName.inhabited

theorem toList_ne_nil {name : String} (isName : IsName name) : name.toList ≠ [] :=
  fun empty => isName.inhabited (String.toList_inj.1 empty)

end IsName

/-! ## Cleaned titles -/

theorem settled_of_suffix {s t : List Char} (settled : Identifier.Settled t) (suffix : s <:+ t)
    (start : ∀ c ∈ s.head?, Identifier.isStart c = true)
    (capital : ∀ c ∈ s.head?, c.isLower = false) : Identifier.Settled s where
  part := fun c member => settled.part c (suffix.subset member)
  start := start
  capital := capital
  joined := settled.joined.suffix suffix

/-- Dropping the underscores in front keeps a name settled: no small letter follows them. -/
theorem settled_dropMarker {t : List Char} (settled : Identifier.Settled t) :
    Identifier.Settled (dropMarker t) := by
  have suffix : t.dropWhile (· == '_') <:+ t := List.dropWhile_suffix _
  have whole := List.takeWhile_append_dropWhile (p := (· == '_')) (l := t)
  unfold dropMarker
  split
  · next c rest shape =>
    rw [shape] at suffix whole
    split
    · next letter =>
      refine settled_of_suffix settled suffix ?_ ?_
      · intro d found
        cases found
        simp only [Bool.or_eq_true] at letter
        simp only [Identifier.isStart, Bool.or_eq_true]
        tauto
      · intro d found
        cases found
        -- before the letter stands nothing or an underscore
        rcases List.eq_nil_or_concat (t.takeWhile (· == '_')) with none | ⟨front, last, marks⟩
        · rw [none, List.nil_append] at whole
          exact settled.capital c (by rw [← whole]; rfl)
        · have mark : last = '_' := by
            have inside : last ∈ t.takeWhile (· == '_') := by
              rw [marks]
              simp
            simpa using List.all_eq_true.1 List.all_takeWhile last inside
          have chain := settled.joined
          rw [← whole, marks, List.concat_eq_append, List.append_assoc] at chain
          have tail := chain.suffix (List.suffix_append _ _)
          exact (List.isChain_cons_cons.1 tail).1 (Or.inl mark)
    · exact settled
  · exact settled

theorem isName_defaultName : IsName defaultName := by
  refine ⟨Identifier.pass_eq_self_iff.1 ?_, by decide⟩
  decide +kernel

/-- A cleaned title is a name. -/
theorem isName_cleanName (title : String) : IsName (cleanName title) := by
  rw [cleanName]
  split
  · exact isName_defaultName
  · next inhabited =>
    refine ⟨?_, inhabited⟩
    rw [String.toList_ofList]
    exact settled_dropMarker (Identifier.settled_ofText title)

/-! ## Suffixes -/

theorem isDigit_of_mem_decimal {n : Nat} {c : Char} (member : c ∈ (Numeral.decimal n).toList) :
    c.isDigit = true := by
  rw [Numeral.decimal, String.toList_ofList] at member
  exact Nat.isDigit_of_mem_toDigits (by decide) (by decide) member

theorem decimal_injective {m n : Nat} (same : Numeral.decimal m = Numeral.decimal n) : m = n := by
  have digits := String.ofList_injective same
  have values := congrArg (fun digits => Nat.ofDigitChars 10 digits 0) digits
  simpa using values

theorem decimal_ne_empty (n : Nat) : (Numeral.decimal n).toList ≠ [] := by
  rw [Numeral.decimal, String.toList_ofList]
  exact Nat.toDigits_ne_nil

theorem toList_withSuffix (name : String) (suffix : Nat) :
    (withSuffix name suffix).toList =
      name.toList ++ if suffix = 0 then [] else (Numeral.decimal suffix).toList := by
  rw [withSuffix]
  split <;> simp

/-- Digits after a name keep it a name. -/
theorem settled_append_digits {t digits : List Char} (settled : Identifier.Settled t)
    (inhabited : t ≠ []) (allDigits : ∀ c ∈ digits, c.isDigit = true) :
    Identifier.Settled (t ++ digits) := by
  have head : (t ++ digits).head? = t.head? := List.head?_append_of_ne_nil _ inhabited
  refine ⟨⟨fun c member => ?_, ?_⟩, ?_, ?_⟩
  · rcases List.mem_append.1 member with old | digit
    · exact settled.part c old
    · exact Identifier.isPart_of_isDigit (allDigits c digit)
  · rw [head]
    exact settled.start
  · rw [head]
    exact settled.capital
  · rw [List.isChain_append]
    refine ⟨settled.joined, ?_, ?_⟩
    · clear head
      induction digits with
      | nil => exact .nil
      | cons c digits ih =>
        rw [List.isChain_cons]
        refine ⟨fun d found _ => ?_, ih fun d member => allDigits d (List.mem_cons_of_mem _ member)⟩
        exact Identifier.isLower_eq_false_of_isDigit
          (allDigits d (List.mem_cons_of_mem _ (List.mem_of_mem_head? found)))
    · intro c _ d found _
      exact Identifier.isLower_eq_false_of_isDigit (allDigits d (List.mem_of_mem_head? found))

/-- The suffixed forms of a name are names. -/
theorem IsName.withSuffix {name : String} (isName : IsName name) (suffix : Nat) :
    IsName (withSuffix name suffix) := by
  refine ⟨?_, ?_⟩
  · rw [toList_withSuffix]
    refine settled_append_digits isName.settled isName.toList_ne_nil fun c member => ?_
    split at member
    · cases member
    · exact isDigit_of_mem_decimal member
  · intro empty
    have letters := toList_withSuffix name suffix
    rw [empty] at letters
    exact isName.toList_ne_nil (List.append_eq_nil_iff.1 letters.symm).1

theorem withSuffix_injective (name : String) {m n : Nat}
    (same : Naming.withSuffix name m = Naming.withSuffix name n) : m = n := by
  have letters := congrArg String.toList same
  rw [toList_withSuffix, toList_withSuffix, List.append_right_inj] at letters
  split at letters <;> split at letters
  · next first second => rw [first, second]
  · exact absurd letters.symm (decimal_ne_empty n)
  · exact absurd letters (decimal_ne_empty m)
  · exact decimal_injective (String.toList_inj.1 letters)

/-- Lower case keeps the suffixed forms of a name apart: suffixes are digits. -/
theorem lower_withSuffix_injective {name : String} (isName : IsName name) {m n : Nat}
    (same : lower (Naming.withSuffix name m) = lower (Naming.withSuffix name n)) : m = n := by
  have digits : ∀ k, (if k = 0 then [] else (Numeral.decimal k).toList).map Char.toLower =
      if k = 0 then [] else (Numeral.decimal k).toList := by
    intro k
    split
    · rfl
    · rw [List.map_congr_left fun c member => ?_, List.map_id']
      have range := Char.isDigit_iff_toNat.1 (isDigit_of_mem_decimal member)
      refine Char.toLower_of_not_isUpper fun upper => ?_
      have capital := Char.isUpper_iff_toNat.1 upper
      simp at range
      omega
  have letters := congrArg String.toList same
  rw [toList_lower (isName.withSuffix m).isAscii, toList_lower (isName.withSuffix n).isAscii,
    toList_withSuffix, toList_withSuffix, List.map_append, List.map_append, digits, digits,
    List.append_right_inj, ← List.append_right_inj name.toList, ← toList_withSuffix,
    ← toList_withSuffix, String.toList_inj] at letters
  exact withSuffix_injective name letters

/-! ## The first free form -/

/-- If a form is taken only because its image is among some words, and different forms have
different images, then one of the forms with suffixes up to the number of words is free, and the
first such form is what is found. -/
theorem firstFree_spec (taken : String → Bool) (image : String → String) (words : List String)
    (name : String)
    (listed : ∀ n, taken (withSuffix name n) = true → image (withSuffix name n) ∈ words)
    (apart : ∀ m n, image (withSuffix name m) = image (withSuffix name n) → m = n) :
    ∃ n, firstFree taken words.length name = withSuffix name n ∧
      taken (withSuffix name n) = false ∧ ∀ m < n, taken (withSuffix name m) = true := by
  have exists_free : ∃ n ∈ List.range (words.length + 1), taken (withSuffix name n) = false := by
    by_contra none
    push Not at none
    have inside : (List.range (words.length + 1)).map (fun n => image (withSuffix name n)) ⊆
        words := by
      intro word member
      obtain ⟨n, bound, rfl⟩ := List.mem_map.1 member
      exact listed n (by simpa using none n bound)
    have once : ((List.range (words.length + 1)).map
        fun n => image (withSuffix name n)).Nodup := by
      refine List.Nodup.map ?_ List.nodup_range
      exact fun m n same => apart m n same
    have fewer := (once.subperm inside).length_le
    rw [List.length_map, List.length_range] at fewer
    omega
  rw [firstFree, List.find?_map]
  cases found : (List.range (words.length + 1)).find?
      ((fun form => !taken form) ∘ withSuffix name) with
  | none =>
    obtain ⟨n, member, free⟩ := exists_free
    have busy := List.find?_eq_none.1 found n member
    simp [free] at busy
  | some n =>
    obtain ⟨free, _, before⟩ := List.find?_range_eq_some.1 found
    refine ⟨n, rfl, by simpa using free, fun m less => ?_⟩
    simpa using before m less

end Typewright.Naming
