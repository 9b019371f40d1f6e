import Typewright.Proofs.Compile.Parts
import Typewright.Proofs.TypeScript.Comments

/-!
# Descriptions stay in their comments

Whatever a description holds, the text of its comment is one comment of whole lines
(`Comment.IsEnclosing`): the mark that closes it stands at its end only, and every line between the
first and the last has the margin of the comment (`Compile.commentOf_encloses`).
-/

namespace Typewright

open Text

namespace Comment

/-- A text that is one documentation comment behind an indent. It is opened in the first line. The
closing mark stands once, before the line feed at the end, so it closes what the opening mark
begins. Line feeds are the only line ends, and all lines but the first and the last begin with the
margin. -/
structure IsEnclosing (indent text : List Char) : Prop where
  opens : indent ++ ['/', '*', '*', '\n'] <+: text
  closes : ['*', '/', '\n'] <:+ text
  once : ∀ offset, ['*', '/'] <+: text.drop offset → offset + 3 = text.length
  whole : ∃ body, text = indent ++ '/' :: '*' :: (body ++ ['*', '/', '\n']) ∧
    ¬ ['*', '/'] <:+: body
  ends : ∀ c ∈ text, isLineEnd c = true → c = '\n'
  margin : ∃ inner, Text.lines text =
      (indent ++ ['/', '*', '*']) :: (inner ++ [indent ++ [' ', '*', '/']]) ∧
    ∀ line ∈ inner, indent ++ [' ', '*'] <+: line

/-- What stands in a comment's text between the marks that open and close it. -/
def interior (comment : Comment) (indent : String) : List Char :=
  ['*', '\n'] ++ (comment.lines.map (shown indent)).flatMap (· ++ ['\n']) ++
    (indent.toList ++ [' '])

section

variable {comment : Comment} {indent : String}

theorem layout_of_inhabited (inhabited : comment.lines ≠ []) :
    comment.layout indent = (indent.toList ++ ['/', '*', '*']) ::
      (comment.lines.map (shown indent) ++ [indent.toList ++ [' ', '*', '/']]) := by
  rw [layout, if_neg (by simpa using inhabited)]

theorem toList_text_of_inhabited (inhabited : comment.lines ≠ []) :
    (comment.text indent).toList =
      indent.toList ++ '/' :: '*' :: (comment.interior indent ++ ['*', '/', '\n']) := by
  rw [toList_text, layout_of_inhabited inhabited, List.flatMap_cons, List.flatMap_append, interior]
  simp

variable (described : comment.IsDescription) (spaces : ∀ c ∈ indent.toList, c = ' ')
include described spaces

/-- Nothing before the closing mark closes a comment, not even together with the star of that mark:
no line does, and between two of them stands a line feed. -/
theorem not_infix_interior :
    ¬ ['*', '/'] <:+: indent.toList ++ '/' :: '*' :: (comment.interior indent ++ ['*']) := by
  intro closes
  have foreign : ∀ c ∈ indent.toList, c ≠ '*' ∧ c ≠ '/' := fun c member => by
    rw [spaces c member]
    decide
  have rows : indent.toList ++ '/' :: '*' :: (comment.interior indent ++ ['*']) ++ ['\n'] =
      ((indent.toList ++ ['/', '*', '*']) :: (comment.lines.map (shown indent) ++
        [indent.toList ++ [' ', '*']])).flatMap (· ++ ['\n']) := by
    simp [interior]
  have inRows := closes.trans (List.prefix_append _ ['\n']).isInfix
  rw [rows, pair_infix_flatMap_iff (by decide) (by decide)] at inRows
  obtain ⟨row, member, inRow⟩ := inRows
  simp only [List.mem_cons, List.mem_append, List.mem_map, List.not_mem_nil, or_false] at member
  rcases member with rfl | ⟨line, isLine, rfl⟩ | rfl
  · rcases pair_infix_append_iff.1 inRow with early | late | ⟨last, _⟩
    · exact (foreign _ (early.subset List.mem_cons_self)).1 rfl
    · exact absurd late (by decide)
    · exact (foreign _ (List.mem_of_getLast? last)).1 rfl
  · rw [pair_infix_shown_iff spaces (by decide) (by decide)] at inRow
    exact (described.line isLine).2 inRow
  · rcases List.mem_append.1 (inRow.subset (List.mem_cons_of_mem _ List.mem_cons_self)) with
      early | late
    · exact (foreign _ early).2 rfl
    · exact absurd late (by decide)

/-- A comment made of a description is one comment of whole lines. -/
theorem IsDescription.isEnclosing (inhabited : comment.lines ≠ []) :
    IsEnclosing indent.toList (comment.text indent).toList where
  opens := by
    rw [toList_text_of_inhabited inhabited, interior]
    simp
  closes := by
    rw [toList_text_of_inhabited inhabited]
    exact ⟨indent.toList ++ '/' :: '*' :: comment.interior indent, by simp⟩
  once offset there := by
    have parts : (comment.text indent).toList =
        (indent.toList ++ '/' :: '*' :: comment.interior indent) ++ ['*', '/', '\n'] := by
      rw [toList_text_of_inhabited inhabited]
      simp
    have unclosed := not_infix_interior described spaces
    rw [parts] at there ⊢
    rw [offset_of_pair (by decide) (by simpa using unclosed) there]
    simp [Nat.add_assoc]
  whole := by
    refine ⟨_, toList_text_of_inhabited inhabited, fun closes => ?_⟩
    have inside : comment.interior indent <:+:
        indent.toList ++ '/' :: '*' :: (comment.interior indent ++ ['*']) :=
      ⟨indent.toList ++ ['/', '*'], ['*'], by simp⟩
    exact not_infix_interior described spaces (closes.trans inside)
  ends c member isEnd := by
    rw [toList_text] at member
    obtain ⟨line, isLine, inLine⟩ := List.mem_flatMap.1 member
    rcases List.mem_append.1 inLine with early | last
    · rw [described.unbroken_layout spaces isLine c early] at isEnd
      cases isEnd
    · exact List.mem_singleton.1 last
  margin := by
    refine ⟨comment.lines.map (shown indent), ?_, fun line member => ?_⟩
    · rw [toList_text, lines_flatMap fun line member => described.unbroken_layout spaces member,
        layout_of_inhabited inhabited]
    · obtain ⟨line, _, rfl⟩ := List.mem_map.1 member
      rw [shown_eq]
      exact ⟨trimEnd (' ' :: line.toList), by simp⟩

end

end Comment

namespace Compile

/-- What a schema's description says stays in its comment, whatever it is and however many spaces
the comment is indented by. -/
theorem commentOf_encloses (g : Graph) (entries : Entries) (width : Nat)
    (written : (commentOf g entries).text (String.ofList (List.replicate width ' ')) ≠ "") :
    Comment.IsEnclosing (List.replicate width ' ')
      ((commentOf g entries).text (String.ofList (List.replicate width ' '))).toList := by
  have inhabited : (commentOf g entries).lines ≠ [] := fun none => written (by
    rw [Comment.text, none]
    rfl)
  have spaces : ∀ c ∈ (String.ofList (List.replicate width ' ')).toList, c = ' ' := by simp
  simpa using (isDescription_commentOf g entries).isEnclosing spaces inhabited

/-- A schema whose description closes comments, ends lines in several ways and declares types. -/
def hostileDescription : Entries :=
  [(.str "description",
      .str "any */ export type A = 1;\u2028**//\r\n/\x0c*/export type B = 2; /*\n"),
    (.str "deprecated", .bool true)]

theorem commentOf_encloses_hostileDescription :
    (commentOf .empty hostileDescription).text (String.ofList (List.replicate 2 ' ')) ≠ "" ∧
      Comment.IsEnclosing (List.replicate 2 ' ')
        ((commentOf .empty hostileDescription).text
          (String.ofList (List.replicate 2 ' '))).toList :=
  have written : (commentOf .empty hostileDescription).text
      (String.ofList (List.replicate 2 ' ')) ≠ "" := by decide +kernel
  ⟨written, commentOf_encloses .empty hostileDescription 2 written⟩

example : (commentOf .empty hostileDescription).text "  " =
    "  /**\n   * any *\\/ export type A = 1;\n   * **\\//\n   * /\n" ++
      "   * *\\/export type B = 2; /*\n   * @deprecated\n   */\n" := by
  decide +kernel

end Compile

end Typewright
