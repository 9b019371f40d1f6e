import Typewright.Proofs.Text.Blank
import Typewright.Proofs.TypeScript.Reading

/-!
# What a head consists of

A head is words and a title (`Source.head?_eq_some_iff`). The words are `export` and the keyword of an
interface or an alias, each with blanks behind it (`Source.Words`). Words are made of letters and
blanks, and no other words begin inside words.

The search for a head finds the same head from any later place before it
(`Source.exists_findHead?_drop`).
-/

namespace Typewright.Source

open Text

variable {text rest words title : List Char} {isInterface start : Bool} {offset place : Nat}
  {head : Head}

/-! ## Words -/

/-- The word for interfaces or for aliases. -/
def keyword (isInterface : Bool) : List Char :=
  if isInterface then "interface".toList else "type".toList

/-- A text is made of blanks, of one at least. -/
def Blanks (text : List Char) : Prop :=
  text ≠ [] ∧ ∀ c ∈ text, isBlank c = true

/-- The words in front of a title, with the blanks behind each of them. -/
inductive Words (isInterface : Bool) : List Char → Prop
  | of {between behind : List Char} (apart : Blanks between) (follow : Blanks behind) :
    Words isInterface ("export".toList ++ (between ++ (keyword isInterface ++ behind)))

/-- No blank comes first. -/
def Visible (text : List Char) : Prop :=
  ∀ c ∈ text.head?, isBlank c = false

theorem visible_cons {c : Char} (shown : isBlank c = false) (text : List Char) :
    Visible (c :: text) := by
  intro d first
  cases first
  exact shown

theorem Visible.append (visible : Visible text) (inhabited : text ≠ []) (rest : List Char) :
    Visible (text ++ rest) := by
  intro c first
  rw [List.head?_append_of_ne_nil _ inhabited] at first
  exact visible c first

theorem Visible.of_append (visible : Visible (text ++ rest)) (inhabited : text ≠ []) :
    Visible text := by
  intro c first
  rw [Visible, List.head?_append_of_ne_nil _ inhabited] at visible
  exact visible c first

theorem visible_keyword (isInterface : Bool) (rest : List Char) :
    Visible (keyword isInterface ++ rest) := by
  have letters : ∃ c text, keyword isInterface = c :: text ∧ isBlank c = false := by
    cases isInterface
    · exact ⟨'t', "ype".toList, rfl, by decide⟩
    · exact ⟨'i', "nterface".toList, rfl, by decide⟩
  obtain ⟨c, text, shape, shown⟩ := letters
  rw [shape]
  exact visible_cons shown _

theorem Visible.dropWhile_blanks {blanks : List Char} (visible : Visible rest)
    (all : ∀ c ∈ blanks, isBlank c = true) : (blanks ++ rest).dropWhile isBlank = rest := by
  have gone : blanks.dropWhile isBlank = [] := List.dropWhile_eq_nil_iff.2 all
  rw [List.dropWhile_append, gone, List.isEmpty_nil, if_pos rfl]
  cases rest with
  | nil => rfl
  | cons c rest =>
    have first : isBlank c = false := visible c rfl
    rw [List.dropWhile_cons_of_neg (by simp [first])]

theorem visible_dropWhile (text : List Char) : Visible (text.dropWhile isBlank) := by
  intro c first
  have kept := List.head?_dropWhile_not isBlank text
  rw [first] at kept
  simpa using kept

theorem Words.visible (isWords : Words isInterface words) (rest : List Char) :
    Visible (words ++ rest) := by
  obtain ⟨apart, follow⟩ := isWords
  exact visible_cons (by decide) _

theorem Words.ne_nil (isWords : Words isInterface words) : words ≠ [] := by
  obtain ⟨apart, follow⟩ := isWords
  simp

/-- A visible character that no keyword has does not stand behind `export`. -/
theorem notMem_behind_export {c : Char} {between behind : List Char} (apart : Blanks between)
    (follow : Blanks behind) (visible : isBlank c = false) (other : c ∉ keyword isInterface) :
    c ∉ between ++ (keyword isInterface ++ behind) := by
  have notBlank : ¬ isBlank c = true := by simp [visible]
  simp only [List.mem_append, not_or]
  exact ⟨fun member => notBlank (apart.2 c member), other,
    fun member => notBlank (follow.2 c member)⟩

/-! ## Reading words -/

theorem afterBlanks?_eq_some_iff :
    afterBlanks? text = some rest ↔ ∃ blanks, Blanks blanks ∧ text = blanks ++ rest ∧
      Visible rest := by
  constructor
  · intro read
    cases text with
    | nil => cases read
    | cons c more =>
      rw [afterBlanks?, Option.ite_none_right_eq_some, Option.some.injEq] at read
      obtain ⟨blank, rfl⟩ := read
      refine ⟨c :: more.takeWhile isBlank, ⟨by simp, ?_⟩, ?_, visible_dropWhile more⟩
      · exact List.forall_mem_cons.2 ⟨blank, fun d member => List.mem_takeWhile_imp member⟩
      · rw [List.cons_append, List.takeWhile_append_dropWhile]
  · rintro ⟨blanks, ⟨inhabited, all⟩, rfl, visible⟩
    obtain ⟨c, more, rfl⟩ := List.exists_cons_of_ne_nil inhabited
    obtain ⟨blank, all⟩ := List.forall_mem_cons.1 all
    rw [List.cons_append, afterBlanks?, if_pos blank, visible.dropWhile_blanks all]

theorem afterWord?_eq_some_iff {word : String} :
    afterWord? word text = some rest ↔ text = word.toList ++ rest := by
  rw [afterWord?, Option.ite_none_right_eq_some, List.isPrefixOf_iff_prefix, Option.some.injEq]
  constructor
  · rintro ⟨⟨more, rfl⟩, rfl⟩
    rw [← String.length_toList, List.drop_left]
  · rintro rfl
    exact ⟨List.prefix_append _ _, by rw [← String.length_toList, List.drop_left]⟩

theorem keyword?_eq_some_iff :
    keyword? text = some (isInterface, rest) ↔ text = keyword isInterface ++ rest := by
  rw [keyword?]
  cases isInterface with
  | true =>
    rw [keyword, if_pos rfl, ← afterWord?_eq_some_iff]
    cases afterWord? "interface" text <;> simp
  | false =>
    cases read : afterWord? "interface" text with
    | none =>
      rw [keyword, if_neg (by simp), ← afterWord?_eq_some_iff]
      simp
    | some more =>
      rw [afterWord?_eq_some_iff.1 read]
      simp [keyword]

/-- A head consists of words and a title, which is as long as it can be. -/
theorem head?_eq_some_iff :
    head? text = some head ↔ ∃ words rest, Words head.isInterface words ∧
      text = words ++ (head.title ++ rest) ∧ Visible (head.title ++ rest) ∧ head.title ≠ [] ∧
      (head.title ++ rest).takeWhile isWord = head.title ∧
      head.width = words.length + head.title.length := by
  simp only [head?, Option.bind_eq_bind, Option.bind_eq_some_iff, Option.ite_none_left_eq_some,
    afterWord?_eq_some_iff, afterBlanks?_eq_some_iff, Prod.exists, keyword?_eq_some_iff,
    List.isEmpty_iff]
  constructor
  · rintro ⟨_, rfl, _, ⟨between, apart, rfl, _⟩, isInterface, _, rfl, body, ⟨behind, follow, rfl,
      visible⟩, inhabited, made⟩
    cases made
    have parts : body.takeWhile isWord ++ body.dropWhile isWord = body :=
      List.takeWhile_append_dropWhile
    refine ⟨_, body.dropWhile isWord, .of apart follow, ?_, ?_, inhabited, ?_, ?_⟩
    · simp only [parts, List.append_assoc]
    · rwa [parts]
    · rw [parts]
    · simp only [List.length_append]
      omega
  · rintro ⟨_, rest, @⟨between, behind, apart, follow⟩, shape, visible, inhabited, whole, width⟩
    refine ⟨_, ?_, _, ⟨between, apart, rfl, visible_keyword head.isInterface _⟩, head.isInterface, _,
      rfl, head.title ++ rest, ⟨behind, follow, rfl, visible⟩, by rwa [whole], ?_⟩
    · rw [shape]
      simp only [List.append_assoc]
    · rw [whole, shape]
      obtain ⟨kind, own, size⟩ := head
      simp only [List.length_append, Option.some.injEq, Head.mk.injEq, true_and] at width ⊢
      omega

/-! ## Finding heads -/

theorem head?_of_findHead? (found : findHead? start text = some (offset, head)) :
    head? (text.drop offset) = some head := by
  induction text generalizing start offset with
  | nil => cases found
  | cons c text ih =>
    rw [findHead?] at found
    split at found
    · next here read =>
      cases found
      split at read
      · exact read
      · cases read
    · obtain ⟨later, foundLater, same⟩ := Option.map_eq_some_iff.1 found
      cases same
      exact ih foundLater

/-- A head that is found stands at the beginning of a line. -/
theorem begins_of_findHead? (found : findHead? start text = some (offset, head)) :
    (offset = 0 ∧ start = true) ∨ (text.take offset).getLast? = some '\n' := by
  induction text generalizing start offset with
  | nil => cases found
  | cons c text ih =>
    rw [findHead?] at found
    split at found
    · next here read =>
      cases found
      split at read
      · next begins => exact Or.inl ⟨rfl, begins⟩
      · cases read
    · obtain ⟨⟨inner, _⟩, foundLater, same⟩ := Option.map_eq_some_iff.1 found
      cases same
      right
      rw [List.take_succ_cons]
      rcases ih foundLater with ⟨rfl, begins⟩ | line
      · simpa using begins
      · rw [List.getLast?_cons, line]
        rfl

/-- From a later place before a head that is found, the same head is found. -/
theorem exists_findHead?_drop (found : findHead? start text = some (offset, head))
    (before : place ≤ offset) :
    ∃ later, findHead? later (text.drop place) = some (offset - place, head) := by
  induction text generalizing start offset place with
  | nil => cases found
  | cons c text ih =>
    cases place with
    | zero => exact ⟨start, found⟩
    | succ place =>
      rw [findHead?] at found
      split at found
      · cases found
        omega
      · obtain ⟨inner, foundLater, same⟩ := Option.map_eq_some_iff.1 found
        cases same
        have moved := ih foundLater (Nat.le_of_succ_le_succ before)
        rw [List.drop_succ_cons, Nat.add_sub_add_right]
        exact moved

/-- Where no head begins, it does not matter whether a line does. -/
theorem findHead?_of_head?_eq_none (other : head? text = none) (start : Bool) :
    findHead? start text = findHead? false text := by
  cases text with
  | nil => simp [findHead?]
  | cons c text => cases start <;> simp [findHead?, other]

theorem width_le_of_head? (read : head? text = some head) : head.width ≤ text.length := by
  obtain ⟨words, rest, _, shape, _, _, _, width⟩ := head?_eq_some_iff.1 read
  rw [shape, width]
  simp only [List.length_append]
  omega

theorem le_length_of_findHead? (found : findHead? start text = some (offset, head)) :
    offset + head.width ≤ text.length := by
  have inside := width_le_of_head? (head?_of_findHead? found)
  obtain ⟨words, rest, isWords, _, _, _, _, width⟩ :=
    head?_eq_some_iff.1 (head?_of_findHead? found)
  have positive := List.length_pos_iff.2 isWords.ne_nil
  rw [List.length_drop] at inside
  omega

end Typewright.Source
