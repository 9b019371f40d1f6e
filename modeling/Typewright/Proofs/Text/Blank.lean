import Mathlib.Data.List.TakeWhile
import Typewright.Proofs.Text.Search
import Typewright.Text.Blank

/-!
# Trimming and lines

What `trimEnd` keeps, and that every line of a text is a piece of it without line ends
(`Text.infix_of_mem_lines`, `Text.isLineEnd_of_mem_lines`). Lines without line ends are found again
in the text that is laid out of them (`Text.lines_flatMap`).
-/

namespace Typewright.Text

variable {c : Char} {front back text line : List Char}

theorem trimEnd_append_of_blank (blank : ∀ c ∈ back, isBlank c = true) :
    trimEnd (front ++ back) = trimEnd front := by
  have gone : back.reverse.dropWhile isBlank = [] :=
    List.dropWhile_eq_nil_iff.2 fun c member => blank c (List.mem_reverse.1 member)
  simp [trimEnd, List.dropWhile_append, gone]

/-- What is dropped at the end of a text reaches no further than to a character that is kept. -/
theorem dropped_append_cons {drops : Char → Bool} (keeps : drops c = false) :
    ((front ++ c :: back).reverse.dropWhile drops).reverse =
      front ++ c :: (back.reverse.dropWhile drops).reverse := by
  have stays : (front ++ [c]).reverse.dropWhile drops = (front ++ [c]).reverse := by
    simp [keeps]
  rw [← List.singleton_append, ← List.append_assoc, List.reverse_append, List.dropWhile_append]
  cases left : back.reverse.dropWhile drops with
  | nil => simp [keeps]
  | cons d rest => simp

theorem trimEnd_append_cons (visible : isBlank c = false) :
    trimEnd (front ++ c :: back) = front ++ c :: trimEnd back :=
  dropped_append_cons visible

/-- Blanks around a text that neither begins nor ends in one are trimmed. -/
theorem trim_surrounded (before core after : List Char) (left : ∀ c ∈ before, isBlank c = true)
    (right : ∀ c ∈ after, isBlank c = true) (first : ∀ c ∈ core.head?, isBlank c = false)
    (last : ∀ c ∈ core.getLast?, isBlank c = false) : trim (before ++ (core ++ after)) = core := by
  have gone : before.dropWhile isBlank = [] := List.dropWhile_eq_nil_iff.2 left
  rw [trim, List.dropWhile_append, gone, List.isEmpty_nil, if_pos rfl]
  cases core with
  | nil =>
    have rest : after.dropWhile isBlank = [] := List.dropWhile_eq_nil_iff.2 right
    rw [List.nil_append, rest]
    rfl
  | cons c core =>
    have here : isBlank c = false := first c rfl
    obtain ⟨front, d, whole⟩ := (List.eq_nil_or_concat (c :: core)).resolve_left (by simp)
    have stays : isBlank d = false := last d (by simp [whole])
    rw [List.cons_append, List.dropWhile_cons_of_neg (by simp [here]), ← List.cons_append,
      trimEnd_append_of_blank right, whole, List.concat_eq_append, trimEnd_append_cons stays]
    rfl

/-- What trimming takes away is blank. -/
theorem exists_blanks (text : List Char) :
    ∃ blanks, text = trimEnd text ++ blanks ∧ ∀ c ∈ blanks, isBlank c = true := by
  refine ⟨(text.reverse.takeWhile isBlank).reverse, ?_, fun c member => ?_⟩
  · rw [trimEnd, ← List.reverse_append, List.takeWhile_append_dropWhile, List.reverse_reverse]
  · exact List.mem_takeWhile_imp (List.mem_reverse.1 member)

theorem prefix_trimEnd (text : List Char) : trimEnd text <+: text := by
  obtain ⟨blanks, parts, _⟩ := exists_blanks text
  exact ⟨blanks, parts.symm⟩

/-- A text is what trimming leaves of it, between blanks. -/
theorem exists_trimmed (text : List Char) : ∃ before after, text = before ++ (trim text ++ after) ∧
    (∀ c ∈ before, isBlank c = true) ∧ ∀ c ∈ after, isBlank c = true := by
  obtain ⟨after, parts, blank⟩ := exists_blanks (text.dropWhile isBlank)
  refine ⟨text.takeWhile isBlank, after, ?_, fun c => List.mem_takeWhile_imp, blank⟩
  rw [trim, ← parts, List.takeWhile_append_dropWhile]

theorem trim_append_of_blank (blank : ∀ c ∈ back, isBlank c = true) :
    trim (front ++ back) = trim front := by
  rw [trim, trim, List.dropWhile_append]
  split
  · next gone =>
    have rest : back.dropWhile isBlank = [] := List.dropWhile_eq_nil_iff.2 blank
    rw [List.isEmpty_iff.1 gone, rest]
  · exact trimEnd_append_of_blank blank

theorem trim_of_blank_append (blank : ∀ c ∈ front, isBlank c = true) :
    trim (front ++ back) = trim back := by
  have gone : front.dropWhile isBlank = [] := List.dropWhile_eq_nil_iff.2 blank
  rw [trim, List.dropWhile_append, gone, List.isEmpty_nil, if_pos rfl, trim]

theorem pair_infix_trimEnd_iff {a b : Char} (left : isBlank a = false) (right : isBlank b = false) :
    [a, b] <:+: trimEnd text ↔ [a, b] <:+: text := by
  obtain ⟨blanks, parts, blank⟩ := exists_blanks text
  have outside : ¬ [a, b] <:+: blanks := fun inside => by
    have member := inside.subset (List.mem_cons_self)
    rw [blank a member] at left
    cases left
  have border : blanks.head? ≠ some b := fun first => by
    rw [blank b (List.mem_of_head? first)] at right
    cases right
  conv_rhs => rw [parts, pair_infix_append_iff]
  simp [outside, border]

/-! ## Lines -/

theorem prefix_of_lines_eq_cons {more : List (List Char)} (split : lines text = line :: more) :
    line <+: text := by
  induction text using lines.induct generalizing line more with
  | case1 => cases split
  | case2 rest ih =>
    rw [lines] at split
    cases split
    exact List.nil_prefix
  | case3 c rest other ends ih =>
    rw [lines.eq_3 _ _ other, if_pos ends] at split
    cases split
    exact List.nil_prefix
  | case4 c rest other inside none ih =>
    rw [lines.eq_3 _ _ other, if_neg inside, none] at split
    cases split
    exact ⟨rest, rfl⟩
  | case5 c rest other inside first later parts ih =>
    rw [lines.eq_3 _ _ other, if_neg inside, parts] at split
    cases split
    exact (List.cons_prefix_cons).2 ⟨rfl, ih parts⟩

theorem infix_of_mem_lines (member : line ∈ lines text) : line <:+: text := by
  induction text using lines.induct generalizing line with
  | case1 => simp [lines] at member
  | case2 rest ih =>
    rw [lines] at member
    rcases List.mem_cons.1 member with rfl | later
    · exact List.nil_infix
    · exact (ih later).trans (List.suffix_append ['\r', '\n'] rest).isInfix
  | case3 c rest other ends ih =>
    rw [lines.eq_3 _ _ other, if_pos ends] at member
    rcases List.mem_cons.1 member with rfl | later
    · exact List.nil_infix
    · exact (ih later).trans (List.suffix_cons c rest).isInfix
  | case4 c rest other inside none ih =>
    rw [lines.eq_3 _ _ other, if_neg inside, none] at member
    rw [List.mem_singleton.1 member]
    exact ⟨[], rest, rfl⟩
  | case5 c rest other inside first later parts ih =>
    rw [lines.eq_3 _ _ other, if_neg inside, parts] at member
    rcases List.mem_cons.1 member with rfl | inLater
    · exact ((List.cons_prefix_cons).2 ⟨rfl, prefix_of_lines_eq_cons parts⟩).isInfix
    · refine (ih ?_).trans (List.suffix_cons c rest).isInfix
      rw [parts]
      exact List.mem_cons_of_mem _ inLater

theorem isLineEnd_of_mem_lines (member : line ∈ lines text) (inLine : c ∈ line) :
    isLineEnd c = false := by
  induction text using lines.induct generalizing line with
  | case1 => simp [lines] at member
  | case2 rest ih =>
    rw [lines] at member
    rcases List.mem_cons.1 member with rfl | later
    · cases inLine
    · exact ih later inLine
  | case3 d rest other ends ih =>
    rw [lines.eq_3 _ _ other, if_pos ends] at member
    rcases List.mem_cons.1 member with rfl | later
    · cases inLine
    · exact ih later inLine
  | case4 d rest other inside none ih =>
    rw [lines.eq_3 _ _ other, if_neg inside, none] at member
    rw [List.mem_singleton.1 member] at inLine
    rw [List.mem_singleton.1 inLine]
    exact Bool.eq_false_iff.2 inside
  | case5 d rest other inside first later parts ih =>
    rw [lines.eq_3 _ _ other, if_neg inside, parts] at member
    rcases List.mem_cons.1 member with rfl | inLater
    · rcases List.mem_cons.1 inLine with rfl | inFirst
      · exact Bool.eq_false_iff.2 inside
      · exact ih (parts ▸ List.mem_cons_self) inFirst
    · exact ih (parts ▸ List.mem_cons_of_mem _ inLater) inLine

theorem lines_append_lineFeed {rest : List Char} (whole : ∀ c ∈ line, isLineEnd c = false) :
    lines (line ++ '\n' :: rest) = line :: lines rest := by
  induction line with
  | nil =>
    have ends : isLineEnd '\n' = true := rfl
    rw [List.nil_append, lines.eq_3 _ _ (by simp), if_pos ends]
  | cons c line ih =>
    have inside := whole c List.mem_cons_self
    have other : c ≠ '\r' := fun same => by
      rw [same] at inside
      cases inside
    rw [List.cons_append, lines.eq_3 _ _ (fun _ same => absurd same other),
      if_neg (Bool.eq_false_iff.1 inside), ih fun d member => whole d (List.mem_cons_of_mem _ member)]

theorem lines_flatMap {l : List (List Char)}
    (whole : ∀ line ∈ l, ∀ c ∈ line, isLineEnd c = false) :
    lines (l.flatMap (· ++ ['\n'])) = l := by
  induction l with
  | nil => rfl
  | cons line l ih =>
    rw [List.flatMap_cons, List.append_assoc, List.singleton_append,
      lines_append_lineFeed (whole line List.mem_cons_self),
      ih fun other member => whole other (List.mem_cons_of_mem _ member)]

end Typewright.Text
