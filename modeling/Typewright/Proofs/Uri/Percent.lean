import Typewright.Proofs.Outcome
import Typewright.Proofs.Text.Characters
import Typewright.Proofs.Text.Search
import Typewright.Proofs.Text.Utf8
import Typewright.Uri.Parts
import Typewright.Uri.Percent

/-!
# Percent-encoded paths

Encoding a path goes character by character (`Uri.toList_encode`). Letters, digits, slashes and four
marks stay as they are, and any other character becomes at least three, the first of them a percent
sign (`Uri.encodeChar_cases`). So a path is its own encoding exactly if it consists of the former
(`Uri.encode_eq_self_iff`), and an encoded path stands as it is in the address of a file
(`Uri.split_file`).
-/

namespace Typewright.Uri

open Text

/-- The characters that stay as they are in an encoded path. -/
def isUnreserved (c : Char) : Bool :=
  c.isAlphanum || ['_', '.', '-', '~', '/'].contains c

/-- The characters that an encoded path consists of. -/
def isEncoded (c : Char) : Bool :=
  isUnreserved c || c == '%'

/-- A character as it stands in an encoded path. -/
def encodeChar (c : Char) : List Char :=
  (Utf8.bytesOf c).flatMap encodeByte

theorem toList_encode (path : String) : (encode path).toList = path.toList.flatMap encodeChar := by
  rw [encode, String.toList_ofList, Utf8.encode_eq, List.flatMap_assoc]
  rfl

theorem toNat_lt_of_isUnreserved {c : Char} (unreserved : isUnreserved c = true) :
    c.toNat < 128 := by
  simp only [isUnreserved, Bool.or_eq_true, List.contains_iff_mem, List.mem_cons, List.not_mem_nil,
    or_false] at unreserved
  rcases unreserved with letter | rfl | rfl | rfl | rfl | rfl
  · have range := Char.isAlphanum_iff_toNat.1 letter
    omega
  all_goals decide

theorem isUnreserved_of_isAlphanum {c : Char} (letter : c.isAlphanum = true) :
    isUnreserved c = true := by
  rw [isUnreserved, letter, Bool.true_or]

/-- A byte of an encoded path is a character that stays, or two digits after a percent sign. -/
theorem encodeByte_cases (b : UInt8) :
    (isUnreserved (Char.ofNat b.toNat) = true ∧ b.toNat < 128 ∧
      encodeByte b = [Char.ofNat b.toNat]) ∨
    (¬(isUnreserved (Char.ofNat b.toNat) = true ∧ b.toNat < 128) ∧
      ∃ high low, encodeByte b = ['%', high, low] ∧ high.isAlphanum = true ∧
        low.isAlphanum = true) := by
  have digit : ∀ n < 16, (hexDigit n).toUpper.isAlphanum = true := by decide
  unfold encodeByte
  dsimp only
  split
  · next stays =>
    rw [Bool.and_eq_true, decide_eq_true_iff, UInt8.lt_iff_toNat_lt] at stays
    exact Or.inl ⟨stays.2, stays.1, rfl⟩
  · next goes =>
    refine Or.inr ⟨fun stays => goes ?_, _, _, rfl, digit _ (Nat.mod_lt _ (by omega)),
      digit _ (Nat.mod_lt _ (by omega))⟩
    rw [Bool.and_eq_true, decide_eq_true_iff, UInt8.lt_iff_toNat_lt]
    exact ⟨stays.2, stays.1⟩

/-- A character of an encoded path stays, or becomes at least three with a percent sign first. -/
theorem encodeChar_cases (c : Char) :
    (isUnreserved c = true ∧ encodeChar c = [c]) ∨
    (isUnreserved c = false ∧ ∃ high low more, encodeChar c = '%' :: high :: low :: more) := by
  have range := Utf8.toNat_cases c
  by_cases one : c.toNat ≤ 0x7F
  · have value := Utf8.toNat_ofNat (n := c.toNat) (by omega)
    have whole : encodeChar c = encodeByte (UInt8.ofNat c.toNat) := by
      rw [encodeChar, Utf8.bytesOf_of_le one, List.flatMap_cons, List.flatMap_nil, List.append_nil]
    rw [whole]
    have cases := encodeByte_cases (UInt8.ofNat c.toNat)
    rw [value, Char.ofNat_toNat] at cases
    rcases cases with ⟨stays, _, same⟩ | ⟨goes, high, low, shape, _⟩
    · exact Or.inl ⟨stays, same⟩
    · refine Or.inr ⟨?_, high, low, [], shape⟩
      rw [Bool.eq_false_iff]
      exact fun stays => goes ⟨stays, by omega⟩
  · -- the first byte of a longer character is no ASCII
    refine Or.inr ⟨?_, ?_⟩
    · rw [Bool.eq_false_iff]
      intro stays
      have small := toNat_lt_of_isUnreserved stays
      omega
    · obtain ⟨first, more, bytes⟩ : ∃ first more, Utf8.bytesOf c = first :: more :=
        List.exists_cons_of_ne_nil String.utf8EncodeChar_ne_nil
      have long : 128 ≤ first.toNat :=
        Utf8.le_of_mem_bytesOf (Nat.lt_of_not_le one) (by rw [bytes]; exact List.mem_cons_self)
      rw [encodeChar, bytes, List.flatMap_cons]
      rcases encodeByte_cases first with ⟨_, small, _⟩ | ⟨_, high, low, shape, _⟩
      · omega
      · rw [shape]
        exact ⟨high, low, _, rfl⟩

theorem encodeChar_slash : encodeChar '/' = ['/'] := by
  rcases encodeChar_cases '/' with ⟨_, same⟩ | ⟨goes, _⟩
  · exact same
  · exact absurd goes (by decide)

theorem isEncoded_of_mem_encodeByte {b : UInt8} {c : Char} (member : c ∈ encodeByte b) :
    isEncoded c = true := by
  rw [isEncoded, Bool.or_eq_true]
  rcases encodeByte_cases b with ⟨stays, _, same⟩ | ⟨_, high, low, shape, first, second⟩
  · rw [same, List.mem_singleton] at member
    rw [member]
    exact Or.inl stays
  · rw [shape] at member
    simp only [List.mem_cons, List.not_mem_nil, or_false] at member
    rcases member with rfl | rfl | rfl
    · exact Or.inr rfl
    · exact Or.inl (isUnreserved_of_isAlphanum first)
    · exact Or.inl (isUnreserved_of_isAlphanum second)

theorem toNat_of_slash_mem_encodeByte {b : UInt8} (member : '/' ∈ encodeByte b) : b.toNat = 47 := by
  rcases encodeByte_cases b with ⟨_, small, same⟩ | ⟨_, high, low, shape, first, second⟩
  · have slash : ∀ n < 128, '/' = Char.ofNat n → n = 47 := by decide
    rw [same, List.mem_singleton] at member
    exact slash _ small member
  · rw [shape] at member
    simp only [List.mem_cons, List.not_mem_nil, or_false] at member
    rcases member with percent | rfl | rfl
    · exact absurd percent (by decide)
    · exact absurd first (by decide)
    · exact absurd second (by decide)

/-- The slashes of an encoded path are those of the path. -/
theorem eq_slash_of_mem_encodeChar {c : Char} (member : '/' ∈ encodeChar c) : c = '/' := by
  obtain ⟨b, inside, inByte⟩ := List.mem_flatMap.1 member
  have code := toNat_of_slash_mem_encodeByte inByte
  by_cases one : c.toNat ≤ 0x7F
  · rw [Utf8.bytesOf_of_le one, List.mem_singleton] at inside
    rw [inside, Utf8.toNat_ofNat (by omega)] at code
    rw [← Char.ofNat_toNat c, code]
  · have high := Utf8.le_of_mem_bytesOf (by omega) inside
    omega

theorem isEncoded_of_mem_flatMap {path : List Char} {c : Char}
    (member : c ∈ path.flatMap encodeChar) : isEncoded c = true := by
  obtain ⟨_, _, inside⟩ := List.mem_flatMap.1 member
  obtain ⟨_, _, inByte⟩ := List.mem_flatMap.1 inside
  exact isEncoded_of_mem_encodeByte inByte

theorem length_le_flatMap_encodeChar (path : List Char) :
    path.length ≤ (path.flatMap encodeChar).length := by
  induction path with
  | nil => exact Nat.le_refl _
  | cons c path ih =>
    rw [List.flatMap_cons, List.length_append, List.length_cons]
    rcases encodeChar_cases c with ⟨_, same⟩ | ⟨_, high, low, more, shape⟩
    · rw [same, List.length_singleton]
      omega
    · rw [shape, List.length_cons]
      omega

/-- A path is its own encoding exactly if all its characters stay as they are. -/
theorem flatMap_encodeChar_eq_self_iff (path : List Char) :
    path.flatMap encodeChar = path ↔ ∀ c ∈ path, isUnreserved c = true := by
  induction path with
  | nil => simp
  | cons c path ih =>
    rw [List.flatMap_cons, List.forall_mem_cons]
    rcases encodeChar_cases c with ⟨stays, same⟩ | ⟨goes, high, low, more, shape⟩
    · rw [same, List.singleton_append, List.cons.injEq, ih, stays]
      simp
    · have longer := length_le_flatMap_encodeChar path
      have apart : ¬ encodeChar c ++ path.flatMap encodeChar = c :: path := by
        intro equal
        have lengths := congrArg List.length equal
        rw [shape] at lengths
        simp only [List.length_append, List.length_cons] at lengths
        omega
      rw [goes]
      simp [apart]

/-- A path is its own encoding exactly if all its characters stay as they are. -/
theorem encode_eq_self_iff (path : String) :
    encode path = path ↔ ∀ c ∈ path.toList, isUnreserved c = true := by
  rw [← flatMap_encodeChar_eq_self_iff, ← toList_encode, String.toList_inj]

/-- Text without what goes is its own encoding; any other has a percent sign in it. -/
theorem flatMap_encodeChar_cases (text : List Char) :
    text.flatMap encodeChar = text ∨ '%' ∈ text.flatMap encodeChar := by
  induction text with
  | nil => exact Or.inl rfl
  | cons c text ih =>
    rw [List.flatMap_cons]
    rcases encodeChar_cases c with ⟨_, same⟩ | ⟨_, high, low, more, shape⟩
    · rw [same, List.singleton_append]
      rcases ih with rest | rest
      · rw [rest]
        exact Or.inl rfl
      · exact Or.inr (List.mem_cons_of_mem _ rest)
    · rw [shape]
      exact Or.inr List.mem_cons_self

theorem slash_not_mem_flatMap_encodeChar {text : List Char} (whole : '/' ∉ text) :
    '/' ∉ text.flatMap encodeChar := by
  intro member
  obtain ⟨c, inside, slash⟩ := List.mem_flatMap.1 member
  rw [eq_slash_of_mem_encodeChar slash] at inside
  exact whole inside

/-- Encoding goes segment by segment. -/
theorem flatMap_encodeChar_intercalate (segments : List (List Char)) :
    (['/'].intercalate segments).flatMap encodeChar =
      ['/'].intercalate (segments.map (·.flatMap encodeChar)) := by
  induction segments with
  | nil => rfl
  | cons first rest ih =>
    cases rest with
    | nil => rw [List.map_singleton, List.intercalate_singleton, List.intercalate_singleton]
    | cons second more =>
      rw [List.intercalate_cons_cons, List.flatMap_append, List.flatMap_append, ih,
        List.flatMap_singleton, encodeChar_slash]
      exact (List.intercalate_cons_cons ..).symm

/-! ## Addresses of files -/

/-- A visible text that begins with a visible character is clean. -/
theorem clean_cons {c : Char} (text : List Char) (visible : 32 < c.toNat)
    (oneLine : ∀ d ∈ text, d ≠ '\t' ∧ d ≠ '\r' ∧ d ≠ '\n') : clean (c :: text) = c :: text := by
  have first : decide (c.toNat ≤ 32) = false := decide_eq_false (by omega)
  have shown : ∀ d : Char, 32 < d.toNat → d ≠ '\t' ∧ d ≠ '\r' ∧ d ≠ '\n' := by
    intro d high
    refine ⟨?_, ?_, ?_⟩ <;>
      · rintro rfl
        exact absurd high (by decide)
  rw [clean, List.dropWhile_cons, first, if_neg (by simp), List.filter_eq_self]
  intro d member
  obtain ⟨tab, back, feed⟩ : d ≠ '\t' ∧ d ≠ '\r' ∧ d ≠ '\n' := by
    rcases List.mem_cons.1 member with rfl | later
    · exact shown d visible
    · exact oneLine d later
  simp [tab, back, feed]

theorem clean_rooted (rest : List Char) : ∃ more, clean ('/' :: rest) = '/' :: more := by
  have first : decide ('/'.toNat ≤ 32) = false := rfl
  rw [clean, List.dropWhile_cons, first, if_neg (by simp), List.filter_cons]
  exact ⟨_, rfl⟩

/-- A path from the root has no scheme. -/
theorem splitScheme_rooted (rest : List Char) :
    splitScheme ('/' :: rest) = ([], '/' :: rest) := by
  have apart : [':'].isPrefixOf ('/' :: rest) = false := rfl
  rw [splitScheme, cut?, find?, apart]
  simp only [Bool.false_eq_true, if_false, Option.map_map]
  cases find? [':'] rest with
  | none => rfl
  | some offset => rfl

theorem scheme_of_split_rooted {path : List Char} (rooted : path.head? = some '/') {parts : Parts}
    (given : split path = .ok parts) : parts.scheme = [] := by
  obtain ⟨rest, rfl⟩ := List.head?_eq_some_iff.1 rooted
  obtain ⟨more, cleaned⟩ := clean_rooted rest
  rw [split, splitUnder] at given
  obtain ⟨plain, isPlain, given⟩ := exists_of_bind_ok given
  have none : plain.scheme = [] := by
    rw [splitPlain, cleaned, splitScheme_rooted] at isPlain
    dsimp only at isPlain
    obtain ⟨_, _, isPlain⟩ := exists_of_bind_ok isPlain
    obtain ⟨_, _, isPlain⟩ := exists_of_bind_ok isPlain
    cases isPlain
    rfl
  cases given
  rw [none]
  unfold Parts.withParameters
  dsimp only
  split <;> rfl

/-- The address of a file falls into its scheme and its path. -/
theorem split_file {path : List Char} (rooted : path.head? = some '/')
    (encoded : ∀ c ∈ path, isEncoded c = true) :
    split ("file://".toList ++ path) = .ok { scheme := "file".toList, path } := by
  obtain ⟨rest, rfl⟩ := List.head?_eq_some_iff.1 rooted
  have none : ∀ mark, isEncoded mark = false → mark ∉ '/' :: rest := by
    intro mark other member
    rw [encoded mark member] at other
    cases other
  have cleaned : clean ("file://".toList ++ '/' :: rest) = "file://".toList ++ '/' :: rest := by
    refine clean_cons ("ile://".toList ++ '/' :: rest) (by decide) fun d member => ?_
    rcases List.mem_append.1 member with word | inPath
    · refine ⟨?_, ?_, ?_⟩ <;>
        · rintro rfl
          exact absurd word (by decide)
    · refine ⟨?_, ?_, ?_⟩ <;>
        · rintro rfl
          exact none _ rfl inPath
  have scheme : splitScheme ("file://".toList ++ '/' :: rest) =
      ("file".toList, '/' :: '/' :: '/' :: rest) := rfl
  have authority : splitAuthority ('/' :: '/' :: '/' :: rest) = ([], '/' :: rest) := rfl
  have plain : splitPlain ("file://".toList ++ '/' :: rest) =
      .ok { scheme := "file".toList, path := '/' :: rest } := by
    rw [splitPlain, cleaned, scheme]
    dsimp only
    rw [authority]
    dsimp only
    rw [cut?_of_not_mem (none '#' rfl)]
    dsimp only [Option.getD]
    rw [cut?_of_not_mem (none '?' rfl)]
    rfl
  rw [split, splitUnder, plain]
  rfl

end Typewright.Uri
