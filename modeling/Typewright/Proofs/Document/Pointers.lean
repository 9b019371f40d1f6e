import Typewright.Document.Pointer
import Typewright.Proofs.Text.Search

/-!
# The text of a pointer

A segment comes back from its escaped form (`Pointer.decodeSegment_encodeSegment`). The escaped form
has no slash, so that the text of a pointer falls into the segments that it was made from
(`Pointer.segments_encode`).
-/

namespace Typewright.Pointer

open Text

/-- A character as it stands in a segment. -/
def escaped (c : Char) : List Char :=
  if c = '~' then ['~', '0'] else if c = '/' then ['~', '1'] else [c]

theorem toList_encodeSegment (segment : String) :
    (encodeSegment segment).toList = segment.toList.flatMap escaped := by
  rw [encodeSegment, String.toList_ofList]
  rfl

theorem slash_not_mem_encodeSegment (segment : String) :
    '/' ∉ (encodeSegment segment).toList := by
  rw [toList_encodeSegment]
  intro member
  obtain ⟨c, _, inside⟩ := List.mem_flatMap.1 member
  rw [escaped] at inside
  split at inside
  · simp at inside
  · split at inside
    · simp at inside
    · next slash => exact slash (List.mem_singleton.1 inside).symm

theorem encodeSegment_eq_empty_iff (segment : String) :
    encodeSegment segment = "" ↔ segment = "" := by
  rw [← String.toList_eq_nil_iff, toList_encodeSegment, ← String.toList_eq_nil_iff]
  cases segment.toList with
  | nil => simp
  | cons c rest =>
    rw [List.flatMap_cons, escaped]
    split
    · simp
    · split <;> simp

/-! ## Undoing the escapes -/

/-- A character between the two replacements: only the tilde is still escaped. -/
def tildeEscaped (c : Char) : List Char :=
  if c = '~' then ['~', '0'] else [c]

theorem replacePair_escaped (t : List Char) :
    replacePair '~' '1' ['/'] (t.flatMap escaped) = t.flatMap tildeEscaped := by
  induction t with
  | nil => rfl
  | cons c t ih =>
    rw [List.flatMap_cons, List.flatMap_cons, ← ih, escaped, tildeEscaped]
    by_cases tilde : c = '~'
    · rw [if_pos tilde, if_pos tilde]
      -- The zero behind the tilde keeps the pair from being taken for a slash.
      have first : replacePair '~' '1' ['/'] ('~' :: '0' :: t.flatMap escaped) =
          '~' :: replacePair '~' '1' ['/'] ('0' :: t.flatMap escaped) :=
        replacePair_cons fun _ => by simp
      have second : replacePair '~' '1' ['/'] ('0' :: t.flatMap escaped) =
          '0' :: replacePair '~' '1' ['/'] (t.flatMap escaped) :=
        replacePair_cons fun same => by cases same
      exact first.trans (congrArg _ second)
    · rw [if_neg tilde, if_neg tilde]
      by_cases slash : c = '/'
      · rw [if_pos slash, slash, List.cons_append, List.cons_append, List.nil_append,
          replacePair, if_pos ⟨rfl, rfl⟩]
      · rw [if_neg slash]
        exact replacePair_cons fun same => absurd same tilde

theorem replacePair_tildeEscaped (t : List Char) :
    replacePair '~' '0' ['~'] (t.flatMap tildeEscaped) = t := by
  induction t with
  | nil => rfl
  | cons c t ih =>
    rw [List.flatMap_cons, tildeEscaped]
    by_cases tilde : c = '~'
    · rw [if_pos tilde, tilde, List.cons_append, List.cons_append, List.nil_append, replacePair,
        if_pos ⟨rfl, rfl⟩, ih]
      rfl
    · rw [if_neg tilde, List.singleton_append, replacePair_cons fun same => absurd same tilde, ih]

/-- A segment comes back from its escaped form, as slashes are put back before tildes. -/
theorem decodeSegment_encodeSegment (segment : String) :
    decodeSegment (encodeSegment segment).toList = segment := by
  rw [decodeSegment, toList_encodeSegment, replacePair_escaped, replacePair_tildeEscaped,
    String.ofList_toList]

/-! ## The pieces of a pointer -/

theorem toList_encode (path : List String) :
    (encode path).toList = path.flatMap fun segment => '/' :: (encodeSegment segment).toList := by
  induction path with
  | nil => rfl
  | cons segment path ih =>
    rw [encode, List.map_cons, String.join_cons, ← encode, String.toList_append, ih,
      String.toList_append, List.flatMap_cons]
    rfl

/-- Before the first slash there is an empty piece. -/
theorem segments_encode (path : List String) :
    segments (encode path).toList =
      [] :: path.map fun segment => (encodeSegment segment).toList := by
  rw [segments, toList_encode]
  induction path with
  | nil => rfl
  | cons segment path ih =>
    rw [List.flatMap_cons, List.cons_append, splitAtChar, if_pos rfl,
      splitAtChar_append_of_not_mem (slash_not_mem_encodeSegment segment) ih, List.append_nil,
      List.map_cons]

end Typewright.Pointer
