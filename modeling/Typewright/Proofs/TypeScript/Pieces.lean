import Typewright.Proofs.Text.Blank
import Typewright.Proofs.TypeScript.Brackets

/-!
# Pieces of code outside brackets

Code whose brackets are paired (`Source.IsNested`), and the pieces between the occurrences of a
separator outside brackets (`Source.outerPieces`). Nested code that is one piece each, joined by a
separator between blanks, falls into the same pieces again (`Source.trimmedPieces_intercalate`).
-/

namespace Typewright

open Text

namespace Source

open TypeExpr (hasOuterOperator)

/-! ## Code with paired brackets -/

/-- Code whose brackets are paired, none closing before it opens. -/
structure IsNested (code : List Char) : Prop where
  closed : excess code = 0
  stays : ∀ k < code.length, 0 ≤ excess (code.take k)

variable {code front back : List Char}

instance (code : List Char) : Decidable (IsNested code) :=
  decidable_of_iff (excess code = 0 ∧ ∀ k < code.length, 0 ≤ excess (code.take k))
    ⟨fun both => ⟨both.1, both.2⟩, fun nested => ⟨nested.closed, nested.stays⟩⟩

theorem IsNested.take_nonneg (nested : IsNested code) (k : Nat) : 0 ≤ excess (code.take k) := by
  by_cases inside : k < code.length
  · exact nested.stays k inside
  · rw [List.take_of_length_le (Nat.le_of_not_lt inside)]
    exact Int.le_of_eq nested.closed.symm

theorem Measured.isNested {isEven : Prop} {text : List Char} (measured : Measured isEven text) :
    IsNested (codeFrom .code text) :=
  ⟨measured.closed, fun k _ => measured.stays k⟩

theorem IsNested.append (first : IsNested front) (second : IsNested back) :
    IsNested (front ++ back) := by
  refine ⟨by rw [excess_append, first.closed, second.closed, Int.add_zero], fun k _ => ?_⟩
  rw [List.take_append, excess_append]
  exact Int.add_nonneg (first.take_nonneg k) (second.take_nonneg _)

theorem IsNested.bracketed (nested : IsNested code) {opening closing : Char}
    (opens : isOpening opening = true) (closes : isClosing closing = true) :
    IsNested (opening :: code ++ [closing]) := by
  obtain ⟨up, _, _⟩ := opening_spec opens
  obtain ⟨down, _, _⟩ := closing_spec closes
  refine ⟨by simp [nested.closed, up, down], fun k _ => ?_⟩
  exact excess_take_bracketed up down nested.take_nonneg k

/-- What stands behind characters without brackets is nested if the whole is. -/
theorem IsNested.of_append (nested : IsNested (front ++ back))
    (steps : ∀ c ∈ front, bracketStep c = 0) : IsNested back := by
  have none := excess_of_steps steps
  refine ⟨?_, fun k _ => ?_⟩
  · have whole := nested.closed
    rwa [excess_append, none, Int.zero_add] at whole
  · have whole := nested.take_nonneg (front.length + k)
    rwa [List.take_length_add_append, excess_append, none, Int.zero_add] at whole

/-- What stands before characters without brackets is nested if the whole is. -/
theorem IsNested.of_append_right (nested : IsNested (front ++ back))
    (steps : ∀ c ∈ back, bracketStep c = 0) : IsNested front := by
  refine ⟨?_, fun k inside => ?_⟩
  · have whole := nested.closed
    rwa [excess_append, excess_of_steps steps, Int.add_zero] at whole
  · have whole := nested.take_nonneg k
    rwa [List.take_append_of_le_length inside.le] at whole

theorem IsNested.intercalate {pieces : List (List Char)} (between : IsNested code)
    (each : ∀ piece ∈ pieces, IsNested piece) : IsNested (code.intercalate pieces) :=
  of_intercalate ⟨rfl, by simp⟩ .append between each

/-! ## Pieces outside brackets -/

/-- The pieces of code between the occurrences of a separator outside brackets. -/
def outerPieces (separator : Char) : Int → List Char → List (List Char)
  | _, [] => [[]]
  | depth, c :: rest =>
    if c = separator ∧ depth = 0 then [] :: outerPieces separator depth rest
    else match outerPieces separator (depth + bracketStep c) rest with
      | piece :: pieces => (c :: piece) :: pieces
      | [] => [[c]]

/-- Code that is one piece. -/
def IsPiece (separator : Char) (depth : Int) (code : List Char) : Prop :=
  outerPieces separator depth code = [code]

section

variable {separator : Char} {depth : Int}

theorem isPiece_nil : IsPiece separator depth [] :=
  rfl

theorem exists_outerPieces (separator : Char) (depth : Int) (code : List Char) :
    ∃ piece pieces, outerPieces separator depth code = piece :: pieces := by
  fun_cases outerPieces separator depth code <;> exact ⟨_, _, rfl⟩

theorem isPiece_cons_iff {c : Char} {rest : List Char} : IsPiece separator depth (c :: rest) ↔
    ¬ (c = separator ∧ depth = 0) ∧ IsPiece separator (depth + bracketStep c) rest := by
  obtain ⟨piece, pieces, shape⟩ := exists_outerPieces separator (depth + bracketStep c) rest
  rw [IsPiece, IsPiece, outerPieces, shape]
  split
  · next here => simp [here]
  · next other => simp [other]

theorem isPiece_append_iff : IsPiece separator depth (front ++ back) ↔
    IsPiece separator depth front ∧ IsPiece separator (depth + excess front) back := by
  induction front generalizing depth with
  | nil => simp [isPiece_nil]
  | cons c front ih =>
    rw [List.cons_append, isPiece_cons_iff, isPiece_cons_iff, ih, excess_cons, ← Int.add_assoc,
      and_assoc]

/-- A piece ends at the separator behind it. -/
theorem outerPieces_append (piece : IsPiece separator depth front)
    (returns : depth + excess front = 0) (rest : List Char) :
    outerPieces separator depth (front ++ separator :: rest) =
      front :: outerPieces separator 0 rest := by
  induction front generalizing depth with
  | nil =>
    rw [excess_nil, Int.add_zero] at returns
    rw [List.nil_append, outerPieces, if_pos ⟨rfl, returns⟩, returns]
  | cons c front ih =>
    obtain ⟨other, later⟩ := isPiece_cons_iff.1 piece
    rw [excess_cons, ← Int.add_assoc] at returns
    rw [List.cons_append, outerPieces, if_neg other, ih later returns]

theorem isPiece_of_positive (positive : ∀ k, 0 < depth + excess (code.take k)) :
    IsPiece separator depth code := by
  induction code generalizing depth with
  | nil => exact isPiece_nil
  | cons c code ih =>
    refine isPiece_cons_iff.2 ⟨fun outside => ?_, ih fun k => ?_⟩
    · have here := positive 0
      rw [List.take_zero, excess_nil, outside.2] at here
      omega
    · have later := positive (k + 1)
      rwa [List.take_succ_cons, excess_cons, ← Int.add_assoc] at later

/-- Inside brackets, nested code is one piece. -/
theorem IsNested.isPiece (nested : IsNested code) (inside : 0 < depth) :
    IsPiece separator depth code :=
  isPiece_of_positive fun k => Int.add_pos_of_pos_of_nonneg inside (nested.take_nonneg k)

/-- What stands in brackets is one piece. -/
theorem IsNested.isPiece_bracketed (nested : IsNested code) {opening closing : Char}
    (opens : isOpening opening = true) (other : opening ≠ separator ∧ closing ≠ separator) :
    IsPiece separator 0 (opening :: code ++ [closing]) := by
  obtain ⟨up, _, _⟩ := opening_spec opens
  rw [List.cons_append, isPiece_cons_iff, up]
  refine ⟨fun same => other.1 same.1, isPiece_append_iff.2 ⟨nested.isPiece (by omega), ?_⟩⟩
  exact isPiece_cons_iff.2 ⟨fun same => other.2 same.1, isPiece_nil⟩

theorem isPiece_of_not_mem (absent : separator ∉ code) : IsPiece separator depth code := by
  induction code generalizing depth with
  | nil => exact isPiece_nil
  | cons c code ih =>
    rw [List.mem_cons, not_or] at absent
    exact isPiece_cons_iff.2 ⟨fun same => absent.1 same.1.symm, ih absent.2⟩

/-- Code without an operator outside brackets is one member of a union. -/
theorem isPiece_of_hasOuterOperator (none : hasOuterOperator depth code = false) :
    IsPiece '|' depth code := by
  induction code generalizing depth with
  | nil => exact isPiece_nil
  | cons c code ih =>
    rw [hasOuterOperator_cons, Bool.or_eq_false_iff] at none
    refine isPiece_cons_iff.2 ⟨fun outer => ?_, ih none.2⟩
    rw [outer.1, outer.2] at none
    exact absurd none.1 (by decide)

end

/-! ## Pieces that were joined -/

/-- The pieces of code between the occurrences of a separator outside brackets, without the blanks
around them. -/
def trimmedPieces (separator : Char) (code : List Char) : List (List Char) :=
  (outerPieces separator 0 code).map trim

section

variable {separator : Char} {left right : List Char} (visible : isBlank separator = false)
  (leftBlank : ∀ c ∈ left, isBlank c = true) (rightBlank : ∀ c ∈ right, isBlank c = true)
include visible

theorem isPiece_of_blank {depth : Int} (blank : ∀ c ∈ code, isBlank c = true) :
    IsPiece separator depth code :=
  isPiece_of_not_mem fun member => by
    rw [blank separator member] at visible
    cases visible

include leftBlank rightBlank

/-- Nested pieces that are joined by a separator between blanks are found again. -/
theorem trimmedPieces_intercalate {pieces : List (List Char)} (inhabited : pieces ≠ [])
    (each : ∀ piece ∈ pieces, IsNested piece ∧ IsPiece separator 0 piece) :
    trimmedPieces separator ((left ++ separator :: right).intercalate pieces) =
      pieces.map trim := by
  -- more generally, behind blanks, as each piece but the first stands
  suffices general : ∀ before : List Char, (∀ c ∈ before, isBlank c = true) →
      (outerPieces separator 0
        (before ++ (left ++ separator :: right).intercalate pieces)).map trim = pieces.map trim from
    general [] (by simp)
  induction pieces with
  | nil => exact absurd rfl inhabited
  | cons piece pieces ih =>
    intro before blank
    have none := excess_of_blank blank
    obtain ⟨nested, single⟩ := each piece List.mem_cons_self
    have first : IsPiece separator 0 (before ++ piece) :=
      isPiece_append_iff.2 ⟨isPiece_of_blank visible blank, by rwa [none, Int.add_zero]⟩
    cases pieces with
    | nil =>
      rw [List.intercalate_singleton, first, List.map_singleton, trim_of_blank_append blank]
      rfl
    | cons next pieces =>
      have whole : before ++ (left ++ separator :: right).intercalate (piece :: next :: pieces) =
          (before ++ piece ++ left) ++ separator ::
            (right ++ (left ++ separator :: right).intercalate (next :: pieces)) := by
        simp [List.intercalate_cons_cons]
      rw [whole, outerPieces_append
        (isPiece_append_iff.2 ⟨first, isPiece_of_blank visible leftBlank⟩)
        (by simp [none, excess_of_blank leftBlank, nested.closed]), List.map_cons,
        trim_append_of_blank leftBlank, trim_of_blank_append blank, List.map_cons,
        ih (by simp) (fun piece member => each piece (List.mem_cons_of_mem _ member)) right
          rightBlank]

end

end Source

end Typewright
