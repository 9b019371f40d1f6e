import Mathlib.Data.List.Infix
import Typewright.Text.CodeTable
import Typewright.Text.Search

/-!
# Where patterns occur

Patterns of two characters in texts that are put together (`Text.pair_infix_append_iff`), what
`findLast?` finds, the pieces of a text between separators, and that replacing a pair by something
without it leaves none.
-/

namespace Typewright.Text

variable {a b : Char} {pattern text front back : List Char}

theorem pair_infix_cons_iff {c : Char} :
    [a, b] <:+: c :: text ↔ (c = a ∧ text.head? = some b) ∨ [a, b] <:+: text := by
  rw [List.infix_cons_iff, List.cons_prefix_cons]
  cases text with
  | nil => simp
  | cons d rest => simp only [List.cons_prefix_cons, List.nil_prefix, and_true, List.head?_cons,
      Option.some.injEq, eq_comm]

/-- A pair occurs in one of two texts or across the border between them. -/
theorem pair_infix_append_iff :
    [a, b] <:+: front ++ back ↔ [a, b] <:+: front ∨ [a, b] <:+: back ∨
      (front.getLast? = some a ∧ back.head? = some b) := by
  induction front with
  | nil => simp
  | cons c rest ih =>
    rw [List.cons_append, pair_infix_cons_iff, pair_infix_cons_iff, ih]
    cases rest with
    | nil =>
      simp only [List.nil_append, List.getLast?_nil, List.head?_nil, List.getLast?_singleton,
        Option.some.injEq, reduceCtorEq, List.infix_nil, false_and, and_false, false_or, or_false]
      exact or_comm
    | cons d rest =>
      simp only [List.cons_append, List.head?_cons, List.getLast?_cons_cons, or_assoc]

theorem pair_infix_append_cons_iff {c : Char} (left : c ≠ a) (right : c ≠ b) :
    [a, b] <:+: front ++ c :: back ↔ [a, b] <:+: front ∨ [a, b] <:+: back := by
  rw [pair_infix_append_iff, pair_infix_cons_iff]
  simp [left, right]

/-- A pair that a text ends with, before one more character, and that does not stand earlier, stands
there only. -/
theorem offset_of_pair {stop : Char} {offset : Nat} (other : b ≠ stop)
    (earlier : ¬ [a, b] <:+: front ++ [a])
    (there : [a, b] <+: (front ++ [a, b, stop]).drop offset) : offset = front.length := by
  rcases Nat.lt_trichotomy offset front.length with before | here | behind
  · have whole : front ++ [a, b, stop] = front ++ [a] ++ [b, stop] := by simp
    rw [whole, List.drop_append_of_le_length (by simp; omega)] at there
    have long : [a, b].length ≤ ((front ++ [a]).drop offset).length := by simp; omega
    have inFront := List.prefix_of_prefix_length_le there (List.prefix_append _ _) long
    exact absurd (inFront.isInfix.trans (List.drop_suffix _ _).isInfix) earlier
  · exact here
  · obtain ⟨more, rfl⟩ := Nat.exists_eq_add_of_lt behind
    rw [Nat.add_assoc, ← List.drop_drop, List.drop_left] at there
    cases more with
    | zero => simp [other] at there
    | succ more => cases more <;> simp at there

/-! ## The first occurrence -/

theorem find?_of_not_mem {mark : Char} (absent : mark ∉ text) :
    find? [mark] text = none := by
  induction text with
  | nil => rfl
  | cons c text ih =>
    rw [List.mem_cons, not_or] at absent
    have apart : [mark].isPrefixOf (c :: text) = false := by
      simp [List.isPrefixOf, absent.1]
    rw [find?, apart, ih absent.2]
    rfl

theorem cut?_of_not_mem {mark : Char} (absent : mark ∉ text) :
    cut? [mark] text = none := by
  rw [cut?, find?_of_not_mem absent]
  rfl

/-- A text is cut at the first mark in it. -/
theorem cut?_append {mark : Char} (absent : mark ∉ front) :
    cut? [mark] (front ++ mark :: back) = some (front, back) := by
  have found : find? [mark] (front ++ mark :: back) = some front.length := by
    induction front with
    | nil =>
      rw [List.nil_append, find?, if_pos (by simp)]
      rfl
    | cons c front ih =>
      rw [List.mem_cons, not_or] at absent
      have apart : [mark].isPrefixOf (c :: (front ++ mark :: back)) = false := by
        simp [List.isPrefixOf, absent.1]
      rw [List.cons_append, find?, apart, ih absent.2]
      rfl
  have regrouped : front ++ mark :: back = (front ++ [mark]) ++ back := by simp
  have rest : (front ++ mark :: back).drop (front.length + [mark].length) = back := by
    rw [regrouped]
    exact List.drop_left' (by simp)
  rw [cut?, found, Option.map_some, List.take_left, rest]

/-! ## The last occurrence -/

theorem findLast?_eq_none_iff (proper : pattern ≠ []) :
    findLast? pattern text = none ↔ ¬ pattern <:+: text := by
  induction text with
  | nil => simp [findLast?, proper]
  | cons c rest ih =>
    rw [findLast?, List.infix_cons_iff]
    cases last : findLast? pattern rest with
    | none =>
      have apart := ih.1 last
      simp [apart]
    | some offset =>
      have inside : pattern <:+: rest := by
        by_contra apart
        rw [ih.2 apart] at last
        cases last
      simp [inside]

theorem findLast?_append {offset : Nat} (found : findLast? pattern back = some offset) :
    findLast? pattern (front ++ back) = some (front.length + offset) := by
  induction front with
  | nil => simpa using found
  | cons c rest ih =>
    rw [List.cons_append, findLast?, ih]
    simp only [List.length_cons, Option.some.injEq]
    omega

theorem findLast?_drop {offset : Nat} (found : findLast? pattern text = some offset) :
    findLast? pattern (text.drop offset) = some 0 := by
  induction text generalizing offset with
  | nil =>
    simp only [findLast?, Option.ite_none_right_eq_some] at found
    rw [List.drop_nil, findLast?, if_pos found.1]
  | cons c rest ih =>
    cases last : findLast? pattern rest with
    | none =>
      rw [findLast?, last] at found
      simp only [Option.ite_none_right_eq_some, Option.some.injEq] at found
      obtain ⟨here, rfl⟩ := found
      rw [List.drop_zero, findLast?, last]
      simp only [if_pos here]
    | some inner =>
      rw [findLast?, last] at found
      cases found
      rw [List.drop_succ_cons]
      exact ih last

theorem prefix_of_findLast? {offset : Nat} (found : findLast? pattern text = some offset) :
    pattern <+: text.drop offset := by
  have first := findLast?_drop found
  cases left : text.drop offset with
  | nil =>
    rw [left, findLast?] at first
    simp only [Option.ite_none_right_eq_some, List.isEmpty_iff] at first
    rw [first.1]
  | cons c rest =>
    rw [left, findLast?] at first
    cases last : findLast? pattern rest with
    | none =>
      rw [last] at first
      simpa using first
    | some inner =>
      rw [last] at first
      cases first

theorem findLast?_cons_eq_zero_iff {c : Char} (proper : pattern ≠ []) :
    findLast? pattern (c :: text) = some 0 ↔ pattern <+: c :: text ∧ ¬ pattern <:+: text := by
  rw [findLast?]
  cases last : findLast? pattern text with
  | none => simp [(findLast?_eq_none_iff proper).1 last]
  | some inner =>
    have inside : pattern <:+: text := by
      by_contra apart
      rw [(findLast?_eq_none_iff proper).2 apart] at last
      cases last
    simp [inside]

/-! ## Pieces between separators -/

theorem splitAtChar_of_not_mem {separator : Char} {t : List Char} (absent : separator ∉ t) :
    splitAtChar separator t = [t] := by
  induction t with
  | nil => rfl
  | cons c t ih =>
    rw [List.mem_cons, not_or] at absent
    rw [splitAtChar, if_neg (Ne.symm absent.1), ih absent.2]

theorem splitAtChar_append {separator : Char} {t : List Char} (rest : List Char)
    (absent : separator ∉ t) :
    splitAtChar separator (t ++ separator :: rest) = t :: splitAtChar separator rest := by
  induction t with
  | nil => rw [List.nil_append, splitAtChar, if_pos rfl]
  | cons c t ih =>
    rw [List.mem_cons, not_or] at absent
    rw [List.cons_append, splitAtChar, if_neg (Ne.symm absent.1), ih absent.2]

theorem exists_splitAtChar (separator : Char) (t : List Char) :
    ∃ piece pieces, splitAtChar separator t = piece :: pieces := by
  fun_cases splitAtChar separator t <;> exact ⟨_, _, rfl⟩

/-- A text without the separator belongs to the first piece of what follows it. -/
theorem splitAtChar_append_of_not_mem {separator : Char} {t rest piece : List Char}
    {pieces : List (List Char)} (absent : separator ∉ t)
    (given : splitAtChar separator rest = piece :: pieces) :
    splitAtChar separator (t ++ rest) = (t ++ piece) :: pieces := by
  induction t with
  | nil => exact given
  | cons c t ih =>
    rw [List.mem_cons, not_or] at absent
    rw [List.cons_append, splitAtChar, if_neg (Ne.symm absent.1), ih absent.2]
    rfl

/-- Pieces without the separator are what their text with separators between them falls into. -/
theorem splitAtChar_intercalate {separator : Char} {pieces : List (List Char)}
    (some : pieces ≠ []) (absent : ∀ piece ∈ pieces, separator ∉ piece) :
    splitAtChar separator ([separator].intercalate pieces) = pieces := by
  induction pieces with
  | nil => exact absurd rfl some
  | cons first rest ih =>
    have here := absent first List.mem_cons_self
    cases rest with
    | nil => rw [List.intercalate_singleton, splitAtChar_of_not_mem here]
    | cons second more =>
      rw [List.intercalate_cons_cons, List.append_assoc, List.singleton_append,
        splitAtChar_append _ here,
        ih (by simp) fun piece member => absent piece (List.mem_cons_of_mem _ member)]

/-- A text whose pieces all end in the separator has an empty piece at the end. -/
theorem splitAtChar_flatMap {separator : Char} {pieces : List (List Char)}
    (absent : ∀ piece ∈ pieces, separator ∉ piece) :
    splitAtChar separator (pieces.flatMap (· ++ [separator])) = pieces ++ [[]] := by
  induction pieces with
  | nil => rfl
  | cons first rest ih =>
    rw [List.flatMap_cons, List.append_assoc, List.singleton_append,
      splitAtChar_append _ (absent first List.mem_cons_self),
      ih fun piece member => absent piece (List.mem_cons_of_mem _ member), List.cons_append]

theorem not_mem_of_mem_splitAtChar {separator : Char} {t piece : List Char}
    (member : piece ∈ splitAtChar separator t) : separator ∉ piece := by
  induction t generalizing piece with
  | nil =>
    rw [splitAtChar, List.mem_singleton] at member
    rw [member]
    exact List.not_mem_nil
  | cons c t ih =>
    rw [splitAtChar] at member
    split at member
    · rcases List.mem_cons.1 member with rfl | later
      · exact List.not_mem_nil
      · exact ih later
    · next other =>
      cases pieces : splitAtChar separator t with
      | nil =>
        rw [pieces, List.mem_singleton] at member
        rw [member, List.mem_singleton]
        exact Ne.symm other
      | cons first rest =>
        rw [pieces] at ih member
        rcases List.mem_cons.1 member with rfl | later
        · rw [List.mem_cons, not_or]
          exact ⟨Ne.symm other, ih List.mem_cons_self⟩
        · exact ih (List.mem_cons_of_mem _ later)

/-! ## Replacing a pair -/

theorem replacePair_cons {c : Char} {image : List Char} (apart : c = a → text.head? ≠ some b) :
    replacePair a b image (c :: text) = c :: replacePair a b image text := by
  cases text with
  | nil => rfl
  | cons d rest =>
    have other : ¬(c = a ∧ d = b) := fun ⟨first, second⟩ => apart first (congrArg some second)
    rw [replacePair, if_neg other]

theorem replacePair_append {image : List Char} (absent : a ∉ front) :
    replacePair a b image (front ++ back) = front ++ replacePair a b image back := by
  induction front with
  | nil => rfl
  | cons c front ih =>
    rw [List.mem_cons, not_or] at absent
    rw [List.cons_append, replacePair_cons fun same => absurd same.symm absent.1, ih absent.2]
    rfl

theorem replacePair_of_not_mem (b : Char) (image : List Char) (absent : a ∉ text) :
    replacePair a b image text = text := by
  have whole : replacePair a b image (text ++ []) = text ++ replacePair a b image [] :=
    replacePair_append absent
  rwa [replacePair, List.append_nil] at whole

/-- Breaking up the end of a comment leaves no end of a comment. -/
theorem not_infix_replacePair (text : List Char) :
    ¬ ['*', '/'] <:+: replacePair '*' '/' ['*', '\\', '/'] text ∧
      ((replacePair '*' '/' ['*', '\\', '/'] text).head? = some '/' →
        text.head? = some '/') := by
  induction text using replacePair.induct '*' '/' with
  | case1 => simp [replacePair]
  | case2 c => simp [replacePair, List.infix_cons_iff]
  | case3 c d rest pair ih =>
    rw [replacePair, if_pos pair]
    simp [pair_infix_cons_iff, ih.1]
  | case4 c d rest other ih =>
    rw [replacePair, if_neg other, pair_infix_cons_iff]
    refine ⟨?_, fun first => first⟩
    rintro (⟨rfl, later⟩ | inside)
    · exact other ⟨rfl, by simpa using ih.2 later⟩
    · exact ih.1 inside

end Typewright.Text
