import Typewright.Proofs.TypeScript.Inert

/-!
# The text of comments

A comment is laid out in whole lines (`Comment.toList_text`), each beginning with a space or a
slash, so no declaration begins in it. Descriptions fall into lines without line feeds, and the ends
of comments inside them are broken up (`Comment.IsDescription.line`), so a comment made of a
description ends where it should.
-/

namespace Typewright

open Text

theorem intercalate_append_self {separator : List Char} {l : List (List Char)}
    (inhabited : l ≠ []) :
    separator.intercalate l ++ separator = l.flatMap (· ++ separator) := by
  induction l with
  | nil => exact absurd rfl inhabited
  | cons piece l ih =>
    cases l with
    | nil => simp
    | cons next l =>
      rw [List.intercalate_cons_cons, List.append_assoc, ih (by simp), List.flatMap_cons,
        List.flatMap_cons, List.flatMap_cons]

/-- A pair occurs in lines put together exactly if it occurs in one of them. -/
theorem pair_infix_flatMap_iff {a b stop : Char} {l : List (List Char)} (left : stop ≠ a)
    (right : stop ≠ b) : [a, b] <:+: l.flatMap (· ++ [stop]) ↔ ∃ line ∈ l, [a, b] <:+: line := by
  induction l with
  | nil => simp
  | cons line l ih =>
    rw [List.flatMap_cons, List.append_assoc, List.singleton_append,
      pair_infix_append_cons_iff left right, ih]
    simp

namespace Comment

/-- A line of a comment's text inside it. -/
def shown (indent : String) (line : String) : List Char :=
  trimEnd (indent ++ " * " ++ line).toList

/-- The lines of a comment's text. -/
def layout (comment : Comment) (indent : String) : List (List Char) :=
  if comment.lines.isEmpty then []
  else (indent.toList ++ ['/', '*', '*']) :: (comment.lines.map (shown indent) ++
    [indent.toList ++ [' ', '*', '/']])

theorem toList_text (comment : Comment) (indent : String) :
    (comment.text indent).toList = (comment.layout indent).flatMap (· ++ ['\n']) := by
  rw [text, layout]
  split
  · rfl
  · next inhabited =>
    have whole := @intercalate_append_self ['\n'] (comment.lines.map (shown indent))
      (by simpa using inhabited)
    have images : (comment.lines.map fun line => String.ofList (shown indent line)).map
        String.toList = comment.lines.map (shown indent) := by
      simp [Function.comp_def]
    have opening : "/**\n".toList = ['/', '*', '*', '\n'] := rfl
    have closing : " */\n".toList = [' ', '*', '/', '\n'] := rfl
    have stop : "\n".toList = ['\n'] := rfl
    change (indent ++ "/**\n" ++ "\n".intercalate (comment.lines.map fun line =>
      String.ofList (shown indent line)) ++ "\n" ++ indent ++ " */\n").toList = _
    simp only [String.toList_append, String.toList_intercalate, images, opening, closing, stop,
      List.flatMap_cons, List.flatMap_append, List.flatMap_nil, ← whole]
    simp

/-! ## Lines of descriptions -/

/-- A line of a comment made of a description is the mark of deprecated things, or a line of a text
in which the ends of comments are broken up. -/
theorem IsDescription.cases_of_mem {comment : Comment} (described : comment.IsDescription)
    {line : String} (member : line ∈ comment.lines) :
    line = "@deprecated" ∨
      ∃ text, line.toList ∈ Text.lines (replacePair '*' '/' ['*', '\\', '/'] text) := by
  obtain ⟨description, deprecated, rfl⟩ := described
  unfold ofDescription at member
  rcases List.mem_append.1 member with inside | mark
  · cases description with
    | none => cases inside
    | some text =>
      obtain ⟨letters, isLine, rfl⟩ := List.mem_map.1 inside
      exact Or.inr ⟨_, by rwa [String.toList_ofList]⟩
  · split at mark
    · exact Or.inl (List.mem_singleton.1 mark)
    · cases mark

/-- No character of a line of a description ends a line. -/
theorem IsDescription.unbroken {comment : Comment} (described : comment.IsDescription)
    {line : String} (member : line ∈ comment.lines) : ∀ c ∈ line.toList, isLineEnd c = false := by
  rcases described.cases_of_mem member with rfl | ⟨text, isLine⟩
  · simp [isLineEnd]
  · exact fun c inLine => isLineEnd_of_mem_lines isLine inLine

/-- The lines of a description have no line feed and do not close the comment. -/
theorem IsDescription.line {comment : Comment} (described : comment.IsDescription) {line : String}
    (member : line ∈ comment.lines) :
    '\n' ∉ line.toList ∧ ¬ ['*', '/'] <:+: line.toList := by
  refine ⟨fun ends => absurd (described.unbroken member _ ends) (by decide), ?_⟩
  rcases described.cases_of_mem member with rfl | ⟨text, isLine⟩
  · decide
  · exact fun closes => (not_infix_replacePair _).1 (closes.trans (infix_of_mem_lines isLine))

section

variable {indent : String} (spaces : ∀ c ∈ indent.toList, c = ' ')

theorem shown_eq (indent line : String) :
    shown indent line = indent.toList ++ ' ' :: '*' :: trimEnd (' ' :: line.toList) := by
  have parts : (indent ++ " * " ++ line).toList =
      (indent.toList ++ [' ']) ++ '*' :: (' ' :: line.toList) := by
    have inner : " * ".toList = [' ', '*', ' '] := rfl
    simp [inner]
  rw [shown, parts, trimEnd_append_cons (by decide)]
  simp

include spaces

/-- What occurs in a line is what occurs in the description. -/
theorem pair_infix_shown_iff {a b : Char} (left : isBlank a = false) (right : isBlank b = false)
    (line : String) : [a, b] <:+: shown indent line ↔ [a, b] <:+: line.toList := by
  have notLeft : ' ' ≠ a := fun same => by
    rw [← same] at left
    cases left
  have notRight : ' ' ≠ b := fun same => by
    rw [← same] at right
    cases right
  have outside : ¬ [a, b] <:+: indent.toList := fun inside =>
    notLeft (spaces a (inside.subset List.mem_cons_self)).symm
  rw [shown_eq, pair_infix_append_cons_iff notLeft notRight, pair_infix_cons_iff]
  have head : (trimEnd (' ' :: line.toList)).head? ≠ some b := by
    intro first
    cases kept : trimEnd (' ' :: line.toList) with
    | nil =>
      rw [kept] at first
      cases first
    | cons c rest =>
      have begins := prefix_trimEnd (' ' :: line.toList)
      rw [kept, List.cons_prefix_cons] at begins
      rw [kept, List.head?_cons] at first
      exact notRight (begins.1.symm.trans (Option.some.inj first))
  rw [pair_infix_trimEnd_iff left right, pair_infix_cons_iff]
  simp [outside, notLeft, head]

/-- No character of a line of a comment's text ends a line. -/
theorem IsDescription.unbroken_layout {comment : Comment} (described : comment.IsDescription)
    {line : List Char} (member : line ∈ comment.layout indent) :
    ∀ c ∈ line, isLineEnd c = false := by
  have inIndent : ∀ c ∈ indent.toList, isLineEnd c = false := fun c inside => by
    rw [spaces c inside]
    rfl
  rw [Comment.layout] at member
  split at member
  · cases member
  · simp only [List.mem_cons, List.mem_append, List.mem_map, List.not_mem_nil, or_false] at member
    rcases member with rfl | ⟨text, isLine, rfl⟩ | rfl
    · exact List.forall_mem_append.2 ⟨inIndent, by simp [isLineEnd]⟩
    · rw [shown_eq]
      refine List.forall_mem_append.2 ⟨inIndent, ?_⟩
      simp only [List.forall_mem_cons]
      refine ⟨rfl, rfl, fun c kept => ?_⟩
      rcases List.mem_cons.1 ((prefix_trimEnd _).subset kept) with rfl | inLine
      · rfl
      · exact described.unbroken isLine c inLine
    · exact List.forall_mem_append.2 ⟨inIndent, by simp [isLineEnd]⟩

/-- The lines of a comment's text contain no line feed and do not begin with a letter. -/
theorem IsDescription.layout {comment : Comment} (described : comment.IsDescription)
    {line : List Char} (member : line ∈ comment.layout indent) :
    (∀ c ∈ line, c ≠ '\n') ∧ line.head? ≠ some 'e' := by
  have begins : ∀ (c : Char) (rest : List Char), c ≠ 'e' →
      (indent.toList ++ c :: rest).head? ≠ some 'e' := by
    intro c rest other
    cases shape : indent.toList with
    | nil => simpa using other
    | cons d _ =>
      have blank := spaces d (by rw [shape]; exact List.mem_cons_self)
      simp [blank]
  have unbroken := described.unbroken_layout spaces member
  refine ⟨fun c inside ends => absurd (unbroken c inside) (by rw [ends]; decide), ?_⟩
  rw [Comment.layout] at member
  split at member
  · cases member
  · simp only [List.mem_cons, List.mem_append, List.mem_map, List.not_mem_nil, or_false] at member
    rcases member with rfl | ⟨text, isLine, rfl⟩ | rfl
    · exact begins _ _ (by decide)
    · rw [shown_eq]
      exact begins _ _ (by decide)
    · exact begins _ _ (by decide)

/-- No declaration begins in a comment. -/
theorem IsDescription.quiet {comment : Comment} (described : comment.IsDescription) :
    Source.Quiet true (comment.text indent).toList true := by
  rw [toList_text]
  exact Source.quiet_lines fun line member => described.layout spaces member

/-- The lines of a comment made of a description do not close it. -/
theorem IsDescription.silent_lines {comment : Comment} (described : comment.IsDescription) :
    Source.Silent .blockComment ((comment.lines.map (shown indent)).flatMap (· ++ ['\n']))
      .blockComment := by
  have inside : ∀ l : List String, (∀ line ∈ l, line ∈ comment.lines) →
      Source.Silent .blockComment ((l.map (shown indent)).flatMap (· ++ ['\n']))
        .blockComment := by
    intro l
    induction l with
    | nil => exact fun _ => .nil _
    | cons line l ih =>
      intro each
      rw [List.map_cons, List.flatMap_cons]
      refine (Source.silent_commentLine ?_).append
        (ih fun line member => each line (List.mem_cons_of_mem _ member))
      rw [pair_infix_shown_iff spaces (by decide) (by decide)]
      exact (described.line (each line List.mem_cons_self)).2
  exact inside _ fun line member => member

/-- The reader of braces passes over a comment. -/
theorem IsDescription.crosses {comment : Comment} (described : comment.IsDescription) :
    Source.Crosses .code (comment.text indent).toList .code := by
  have blank : Source.Crosses .code indent.toList .code :=
    Source.crosses_of_not_isMark fun c member => by
      rw [spaces c member]
      rfl
  rw [toList_text, Comment.layout]
  split
  · exact .nil _
  · have opening : Source.Crosses .code (indent.toList ++ ['/', '*', '*'] ++ ['\n'])
        .blockComment := by
      rw [List.append_assoc]
      exact blank.append Source.crosses_opening
    have closing : Source.Crosses .blockComment (indent.toList ++ [' ', '*', '/'] ++ ['\n'])
        .code := by
      rw [List.append_assoc]
      exact (Source.silent_spaces spaces).crosses.append Source.crosses_closing
    rw [List.flatMap_cons, List.flatMap_append, List.flatMap_singleton]
    exact opening.append ((described.silent_lines spaces).crosses.append closing)

end

end Comment

end Typewright
