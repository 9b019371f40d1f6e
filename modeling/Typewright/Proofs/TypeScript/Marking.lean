import Typewright.Proofs.TypeScript.Steps

/-!
# Marking what was split off

Splitting and marking look for a declaration in different ways. Marking lets blanks stand in front of
the words and asks for one behind the title (`Source.titleOffset?_eq_some_iff`); splitting does
neither. The code of a definition is the comment above the declaration, the words, and the title with
what follows it. Marking puts the underscore in front of that title exactly if a blank follows the
title and no line of the comment begins with something that can be marked (`Source.mark_iff`).

The place that is marked is told by a search of its own (`Source.markOffset?`). It does not go beyond
the end of a comment, because no slash occurs in what is matched (`Source.markOffset?_append`), and it
does not stop inside the words, because no other words begin there (`Source.Words.eq_of_suffix`).
-/

namespace Typewright.Source

open Text

variable {text front back words other title : List Char} {isInterface start : Bool} {offset : Nat}
  {head : Head}

/-! ## Words inside words -/

theorem Words.exists_cons (isWords : Words isInterface words) :
    ∃ rest, words = 'e' :: 'x' :: rest ∧ 'x' ∉ rest := by
  obtain @⟨between, behind, apart, follow⟩ := isWords
  have outside : 'x' ∉ keyword isInterface := by
    cases isInterface <;> decide
  refine ⟨"port".toList ++ (between ++ (keyword isInterface ++ behind)), rfl, ?_⟩
  exact List.mem_append.not.2
    (not_or.2 ⟨by decide, notMem_behind_export apart follow (by decide) outside⟩)

/-- No other words begin inside words. -/
theorem Words.eq_of_suffix {isInterfaceToo : Bool} (isWords : Words isInterface words)
    (areWords : Words isInterfaceToo other) (inside : other <:+ words) : other = words := by
  obtain ⟨rest, rfl, absent⟩ := isWords.exists_cons
  obtain ⟨more, rfl, _⟩ := areWords.exists_cons
  rcases List.suffix_cons_iff.1 inside with same | inside
  · exact same
  rcases List.suffix_cons_iff.1 inside with same | inside
  · simp at same
  · exact absurd (inside.subset (by simp)) absent

theorem Words.blank_last (isWords : Words isInterface words) :
    ∀ c ∈ words.getLast?, isBlank c = true := by
  obtain ⟨apart, ⟨inhabited, follow⟩⟩ := isWords
  intro c last
  rw [← List.append_assoc, ← List.append_assoc, List.getLast?_append_of_ne_nil _ inhabited] at last
  exact follow c (List.mem_of_getLast? last)

/-! ## What can be marked -/

/-- A text begins, blanks aside, with words, a title and a blank, and the title is at an offset. -/
inductive Markable : List Char → Nat → Prop
  | of {isInterface : Bool} {blanks words title after : List Char} {c : Char}
      (all : ∀ c ∈ blanks, isBlank c = true) (isWords : Words isInterface words)
      (inhabited : title ≠ []) (visible : Visible title) (word : ∀ c ∈ title, isWord c = true)
      (stops : isWord c = false) (blank : isBlank c = true) :
      Markable (blanks ++ (words ++ (title ++ c :: after))) (blanks.length + words.length)

/-- A title is as long as it can be if it is made of word characters and the next character is none. -/
theorem takeWhile_title_iff {after : List Char} : (title ++ after).takeWhile isWord = title ↔
    (∀ c ∈ title, isWord c = true) ∧ ∀ c ∈ after.head?, isWord c = false := by
  constructor
  · intro whole
    have word : ∀ c ∈ title, isWord c = true := by
      intro c member
      rw [← whole] at member
      exact List.mem_takeWhile_imp member
    refine ⟨word, fun c first => ?_⟩
    rw [List.takeWhile_append_of_pos word, List.append_right_eq_self] at whole
    cases after with
    | nil => cases first
    | cons d after =>
      cases first
      by_contra more
      rw [List.takeWhile_cons_of_pos (by simpa using more)] at whole
      cases whole
  · rintro ⟨word, stops⟩
    rw [List.takeWhile_append_of_pos word]
    cases after with
    | nil => simp
    | cons c after =>
      rw [List.takeWhile_cons_of_neg (by simp [stops c rfl]), List.append_nil]

theorem takeWhile_title {c : Char} (word : ∀ c ∈ title, isWord c = true) (stops : isWord c = false)
    (after : List Char) : (title ++ c :: after).takeWhile isWord = title :=
  takeWhile_title_iff.2 ⟨word, fun _ first => Option.some.inj first ▸ stops⟩

theorem exists_afterBlanks?_iff :
    (∃ rest, afterBlanks? text = some rest) ↔ ∃ c after, text = c :: after ∧ isBlank c = true := by
  cases text with
  | nil => simp [afterBlanks?]
  | cons c after => simp [afterBlanks?]

theorem titleOffset?_eq_some_iff : titleOffset? text = some offset ↔ Markable text offset := by
  have unfolded : titleOffset? text = some offset ↔ ∃ head, head? (text.dropWhile isBlank) = some head ∧
      (∃ rest, afterBlanks? ((text.dropWhile isBlank).drop head.width) = some rest) ∧
      text.length - (text.dropWhile isBlank).length + head.width - head.title.length = offset := by
    simp only [titleOffset?, Option.bind_eq_bind, Option.bind_eq_some_iff, Option.pure_def,
      Option.some.injEq, exists_and_right]
  rw [unfolded]
  simp only [head?_eq_some_iff, exists_afterBlanks?_iff]
  constructor
  · rintro ⟨head, ⟨words, rest, isWords, shape, visible, inhabited, whole, width⟩,
      ⟨c, after, behind, blank⟩, rfl⟩
    have size := congrArg List.length shape
    rw [shape, width, ← List.append_assoc, ← List.length_append, List.drop_left] at behind
    subst behind
    obtain ⟨word, stops⟩ := takeWhile_title_iff.1 whole
    have parts : text = text.takeWhile isBlank ++ (words ++ (head.title ++ c :: after)) := by
      rw [← shape, List.takeWhile_append_dropWhile]
    have place : text.length - (text.dropWhile isBlank).length + head.width - head.title.length =
        (text.takeWhile isBlank).length + words.length := by
      have lengths := congrArg List.length parts
      rw [List.length_append, ← shape] at lengths
      omega
    rw [place]
    conv_lhs => rw [parts]
    exact .of (fun d member => List.mem_takeWhile_imp member) isWords inhabited
      (visible.of_append inhabited) word (stops c rfl) blank
  · rintro @⟨isInterface, blanks, words, title, after, c, all, isWords, inhabited, visible, word, stops,
      blank⟩
    have body := (isWords.visible (title ++ c :: after)).dropWhile_blanks all
    refine ⟨⟨isInterface, title, words.length + title.length⟩, ⟨words, c :: after, isWords, body,
      visible.append inhabited _, inhabited, takeWhile_title word stops after, rfl⟩,
      ⟨c, after, ?_, blank⟩, ?_⟩
    · rw [body, ← List.append_assoc, ← List.length_append, List.drop_left]
    · rw [body]
      simp only [List.length_append]
      omega

/-- A text without a character stands in front of the first one. -/
theorem prefix_of_notMem {c : Char} {after : List Char} (plain : c ∉ other)
    (parts : other ++ after = front ++ c :: back) : other <+: front := by
  rcases List.append_eq_append_iff.1 parts with ⟨rest, shape, _⟩ | ⟨rest, shape, first⟩
  · exact ⟨rest, shape.symm⟩
  · cases rest with
    | nil => rw [shape, List.append_nil]
    | cons d rest =>
      cases first
      rw [shape] at plain
      simp at plain

namespace Markable

/-- In front of the title stand words. -/
theorem exists_words (markable : Markable text offset) :
    ∃ blanks isInterface words, text.take offset = blanks ++ words ∧ Words isInterface words := by
  obtain @⟨isInterface, blanks, words, title, after, c, all, isWords, inhabited, visible, word, stops,
    blank⟩ := markable
  refine ⟨blanks, isInterface, words, ?_, isWords⟩
  rw [← List.append_assoc, ← List.length_append, List.take_left]

theorem lt_length (markable : Markable text offset) : offset < text.length := by
  obtain ⟨all, isWords, inhabited, visible, word, stops, blank⟩ := markable
  simp only [List.length_append, List.length_cons]
  omega

/-- What can be marked in front of a slash can be marked whatever follows the slash. -/
theorem of_slash (markable : Markable (front ++ '/' :: back) offset) (rest : List Char) :
    Markable (front ++ '/' :: rest) offset := by
  generalize whole : front ++ '/' :: back = text at markable
  obtain @⟨isInterface, blanks, words, title, after, c, all, isWords, inhabited, visible, word, stops,
    blank⟩ := markable
  -- no slash occurs in what is matched, so the match is in front of it
  have plain : '/' ∉ blanks ++ (words ++ (title ++ [c])) := by
    have notBlank : ¬ isBlank '/' = true := by decide
    have notWord : ¬ isWord '/' = true := by decide
    simp only [List.mem_append, List.mem_singleton, not_or]
    refine ⟨fun member => notBlank (all _ member), slash_notMem_words isWords,
      fun member => notWord (word _ member), ?_⟩
    rintro rfl
    exact notBlank blank
  have parts : front ++ '/' :: back = (blanks ++ (words ++ (title ++ [c]))) ++ after := by
    rw [whole]
    simp
  obtain ⟨between, shape⟩ := prefix_of_notMem plain parts.symm
  have regrouped : front ++ '/' :: rest =
      blanks ++ (words ++ (title ++ c :: (between ++ '/' :: rest))) := by
    rw [← shape]
    simp
  rw [regrouped]
  exact .of all isWords inhabited visible word stops blank

theorem blanks_append {blanks : List Char} (markable : Markable text offset)
    (all : ∀ c ∈ blanks, isBlank c = true) :
    Markable (blanks ++ text) (blanks.length + offset) := by
  obtain ⟨inside, isWords, inhabited, visible, word, stops, blank⟩ := markable
  rw [← List.append_assoc, ← Nat.add_assoc, ← List.length_append]
  refine .of (fun c member => ?_) isWords inhabited visible word stops blank
  exact (List.mem_append.1 member).elim (all c) (inside c)

theorem of_blanks {blanks : List Char} (markable : Markable (blanks ++ text) offset)
    (all : ∀ c ∈ blanks, isBlank c = true) :
    ∃ inner, Markable text inner ∧ blanks.length + inner = offset := by
  generalize whole : blanks ++ text = both at markable
  obtain @⟨isInterface, blanksToo, words, title, after, c, inside, isWords, inhabited, visible, word,
    stops, blank⟩ := markable
  have gone : blanks.dropWhile isBlank = [] := List.dropWhile_eq_nil_iff.2 all
  have shape : text.dropWhile isBlank = words ++ (title ++ c :: after) := by
    have both := congrArg (List.dropWhile isBlank) whole
    rwa [List.dropWhile_append, gone, List.isEmpty_nil, if_pos rfl,
      (isWords.visible _).dropWhile_blanks inside] at both
  have parts : text = text.takeWhile isBlank ++ (words ++ (title ++ c :: after)) := by
    rw [← shape, List.takeWhile_append_dropWhile]
  refine ⟨(text.takeWhile isBlank).length + words.length, ?_, ?_⟩
  · conv_lhs => rw [parts]
    exact .of (fun d member => List.mem_takeWhile_imp member) isWords inhabited visible word stops
      blank
  · have sizes := congrArg List.length whole
    have size := congrArg List.length parts
    simp only [List.length_append] at sizes size
    omega

/-- What is blank cannot be marked. -/
theorem not_blank (markable : Markable text offset) : ∃ c ∈ text, isBlank c = false := by
  obtain ⟨_, isWords, _, _, _, _, _⟩ := markable
  obtain ⟨rest, shape, _⟩ := isWords.exists_cons
  refine ⟨'e', ?_, by decide⟩
  simp [shape]

end Markable

/-- Marking looks no further than to a slash, if there is one to be found before it. -/
theorem titleOffset?_slash (front back rest : List Char) :
    titleOffset? (front ++ '/' :: back) = titleOffset? (front ++ '/' :: rest) := by
  refine Option.ext fun offset => ?_
  rw [titleOffset?_eq_some_iff, titleOffset?_eq_some_iff]
  exact ⟨fun markable => markable.of_slash rest, fun markable => markable.of_slash back⟩

/-- Blanks in front are passed over. -/
theorem titleOffset?_blanks {blanks : List Char} (all : ∀ c ∈ blanks, isBlank c = true) :
    titleOffset? (blanks ++ text) = (titleOffset? text).map (blanks.length + ·) := by
  refine Option.ext fun offset => ?_
  rw [Option.map_eq_some_iff]
  simp only [titleOffset?_eq_some_iff]
  constructor
  · intro markable
    exact markable.of_blanks all
  · rintro ⟨inner, markable, rfl⟩
    exact markable.blanks_append all

/-! ## The place that is marked -/

/-- The offset in front of which marking puts the underscore. The flag says whether the text begins a
line. -/
def markOffset? : Bool → List Char → Option Nat
  | _, [] => none
  | atLineStart, c :: rest =>
    match (if atLineStart then titleOffset? (c :: rest) else none) with
    | some offset => some offset
    | none => (markOffset? (c == '\n') rest).map (· + 1)

theorem markOffset?_cons (start : Bool) (c : Char) (text : List Char) :
    markOffset? start (c :: text) = (if start then titleOffset? (c :: text) else none).or
      ((markOffset? (c == '\n') text).map (· + 1)) := by
  rw [markOffset?]
  cases (if start = true then titleOffset? (c :: text) else none) <;> rfl

/-- A text with an underscore before an offset. -/
def markAt (text : List Char) (offset : Nat) : List Char :=
  text.take offset ++ '_' :: text.drop offset

theorem markFrom_eq (start : Bool) (text : List Char) :
    markFrom start text = ((markOffset? start text).map (markAt text)).getD text := by
  induction text generalizing start with
  | nil => rfl
  | cons c text ih =>
    rw [markFrom, markOffset?]
    cases (if start = true then titleOffset? (c :: text) else none) with
    | some offset => rfl
    | none =>
      simp only [ih]
      cases markOffset? (c == '\n') text <;> rfl

theorem exists_of_markOffset? (marked : markOffset? start text = some offset) :
    ∃ front back place, text = front ++ back ∧ Markable back place ∧
      offset = front.length + place := by
  induction text generalizing start offset with
  | nil => cases marked
  | cons c text ih =>
    rw [markOffset?] at marked
    split at marked
    · next here =>
      cases marked
      split at here
      · exact ⟨[], c :: text, offset, rfl, titleOffset?_eq_some_iff.1 here, by simp⟩
      · cases here
    · obtain ⟨inner, later, rfl⟩ := Option.map_eq_some_iff.1 marked
      obtain ⟨front, back, place, rfl, markable, rfl⟩ := ih later
      exact ⟨c :: front, back, place, rfl, markable, by simp only [List.length_cons]; omega⟩

/-- In front of the place that is marked stand words. -/
theorem exists_words_of_markOffset? (marked : markOffset? start text = some offset) :
    offset < text.length ∧
      ∃ front isInterface words, text.take offset = front ++ words ∧ Words isInterface words := by
  obtain ⟨front, back, place, rfl, markable, rfl⟩ := exists_of_markOffset? marked
  have inside := markable.lt_length
  obtain ⟨blanks, isInterface, words, before, isWords⟩ := markable.exists_words
  refine ⟨by rw [List.length_append]; omega, front ++ blanks, isInterface, words, ?_, isWords⟩
  rw [List.take_length_add_append, before, List.append_assoc]

theorem titleOffset?_of_blank (all : ∀ c ∈ text, isBlank c = true) : titleOffset? text = none := by
  rw [Option.eq_none_iff_forall_ne_some]
  intro offset marked
  obtain ⟨c, member, visible⟩ := (titleOffset?_eq_some_iff.1 marked).not_blank
  rw [all c member] at visible
  cases visible

theorem markOffset?_of_blank (all : ∀ c ∈ text, isBlank c = true) : markOffset? start text = none := by
  rw [Option.eq_none_iff_forall_ne_some]
  intro offset marked
  obtain ⟨front, back, place, rfl, markable, _⟩ := exists_of_markOffset? marked
  obtain ⟨c, member, visible⟩ := markable.not_blank
  rw [all c (List.mem_append_right front member)] at visible
  cases visible

theorem markOffset?_of_titleOffset? (marked : titleOffset? text = some offset) :
    markOffset? true text = some offset := by
  cases text with
  | nil =>
    have inside := (titleOffset?_eq_some_iff.1 marked).lt_length
    simp at inside
  | cons c text => rw [markOffset?_cons, if_pos rfl, marked, Option.some_or]

/-- What follows a text begins a line. The flag says whether the text does. -/
def Begins (start : Bool) (text : List Char) : Prop :=
  (text = [] ∧ start = true) ∨ text.getLast? = some '\n'

theorem begins_cons_iff {c : Char} : Begins start (c :: text) ↔ Begins (c == '\n') text := by
  cases text <;> simp [Begins]

/-- Lines of a block comment and blanks, or nothing: what stands in front of the words of a definition. -/
def IsClosed (lead : List Char) : Prop :=
  (∀ c ∈ lead, isBlank c = true) ∨
    ∃ inner blanks, lead = inner ++ '/' :: blanks ∧ ∀ c ∈ blanks, isBlank c = true

theorem IsClosed.of_cons {c : Char} {lead : List Char} (closed : IsClosed (c :: lead)) :
    IsClosed lead := by
  rcases closed with all | ⟨inner, blanks, shape, all⟩
  · exact Or.inl fun d member => all d (List.mem_cons_of_mem _ member)
  · cases inner with
    | nil =>
      cases shape
      exact Or.inl all
    | cons d inner =>
      cases shape
      exact Or.inr ⟨inner, blanks, rfl, all⟩

/-- What a lead holds that can be marked is found in the lead alone; otherwise it is found behind the
lead, whatever blanks there are between. -/
theorem markOffset?_append {lead : List Char} (closed : IsClosed lead) (line : Begins start lead)
    (text : List Char) :
    markOffset? start (lead ++ text) =
      (markOffset? start lead).or ((markOffset? true text).map (lead.length + ·)) := by
  induction lead generalizing start with
  | nil =>
    obtain ⟨_, rfl⟩ := line.resolve_right (by simp)
    simp [markOffset?]
  | cons c lead ih =>
    rw [List.cons_append, markOffset?_cons, markOffset?_cons,
      ih closed.of_cons (begins_cons_iff.1 line), Option.map_or,
      Option.or_assoc, Option.map_map, ← List.cons_append]
    have shifted : (fun x => x + 1) ∘ (fun x => lead.length + x) = fun x => (c :: lead).length + x := by
      funext x
      simp only [Function.comp_apply, List.length_cons]
      omega
    rw [shifted]
    cases start with
    | false => simp only [Bool.false_eq_true, if_false]
    | true =>
      simp only [if_true]
      rcases closed with all | ⟨inner, blanks, shape, _⟩
      · rw [titleOffset?_blanks all, titleOffset?_of_blank all, markOffset?_of_blank fun d member =>
          all d (List.mem_cons_of_mem _ member)]
        simp only [Option.map_none, Option.none_or]
        cases found : titleOffset? text with
        | none => rfl
        | some place => rw [markOffset?_of_titleOffset? found]; rfl
      · rw [shape, List.append_assoc, List.cons_append, titleOffset?_slash inner (blanks ++ text) blanks]

/-- Nothing of a text is marked if and only if no line of it can be. -/
theorem markOffset?_eq_none_iff : markOffset? start text = none ↔
    ∀ lines line, text = lines ++ line → Begins start lines → titleOffset? line = none := by
  induction text generalizing start with
  | nil =>
    refine ⟨fun _ lines line parts _ => ?_, fun _ => rfl⟩
    rw [(List.append_eq_nil_iff.1 parts.symm).2]
    rfl
  | cons c text ih =>
    rw [markOffset?_cons, Option.or_eq_none_iff, Option.map_eq_none_iff, ih]
    constructor
    · rintro ⟨here, later⟩ lines line parts begins
      cases lines with
      | nil =>
        rw [if_pos (begins.resolve_right (by simp)).2] at here
        rwa [parts] at here
      | cons d lines =>
        cases parts
        exact later lines line rfl (begins_cons_iff.1 begins)
    · intro each
      refine ⟨?_, fun lines line parts begins =>
        each (c :: lines) line (by rw [parts, List.cons_append]) (begins_cons_iff.2 begins)⟩
      cases start with
      | false => rfl
      | true => exact each [] (c :: text) rfl (Or.inl ⟨rfl, rfl⟩)

/-! ## The place of an underscore -/

/-- An underscore that could stand at two places follows another one. -/
theorem underscore_of_markAt_eq {place : Nat} (same : markAt text offset = markAt text place)
    (before : offset < place) (inside : place ≤ text.length) :
    (text.take place).getLast? = some '_' := by
  obtain ⟨further, rfl⟩ : ∃ further, place = offset + 1 + further := ⟨place - offset - 1, by omega⟩
  have size : (text.take offset).length = offset := List.length_take_of_le (by omega)
  have here : (markAt text offset)[offset + 1 + further]? = text[offset + further]? := by
    rw [markAt, List.getElem?_append_right (by omega), size]
    have place : offset + 1 + further - offset = further + 1 := by omega
    rw [place, List.getElem?_cons_succ, List.getElem?_drop]
  have there : (markAt text (offset + 1 + further))[offset + 1 + further]? = some '_' := by
    rw [markAt, List.getElem?_append_right (by rw [List.length_take_of_le inside]),
      List.length_take_of_le inside]
    simp
  rw [same, there] at here
  rw [List.getLast?_eq_getElem?, List.length_take_of_le inside]
  have last : offset + 1 + further - 1 = offset + further := by omega
  rw [last, List.getElem?_take_of_lt (by omega), ← here]

/-- Behind words there is no underscore, so one that is put there shows where. -/
theorem eq_of_markAt_eq {place : Nat} (same : markAt text offset = markAt text place)
    (oneInside : offset ≤ text.length) (otherInside : place ≤ text.length)
    (one : ∀ c ∈ (text.take offset).getLast?, isBlank c = true)
    (other : ∀ c ∈ (text.take place).getLast?, isBlank c = true) : offset = place := by
  have visible : ¬ isBlank '_' = true := by decide
  rcases Nat.lt_trichotomy offset place with before | equal | behind
  · exact absurd (other '_' (underscore_of_markAt_eq same before otherInside)) visible
  · exact equal
  · exact absurd (one '_' (underscore_of_markAt_eq same.symm behind oneInside)) visible

theorem blank_of_words {front : List Char} (isWords : Words isInterface words) :
    ∀ c ∈ (front ++ words).getLast?, isBlank c = true := by
  rw [List.getLast?_append_of_ne_nil _ isWords.ne_nil]
  exact isWords.blank_last

/-- Whether an underscore is put behind certain words. -/
theorem markFrom_eq_iff {front : List Char} (isWords : Words isInterface words) (body : List Char) :
    markFrom true (front ++ (words ++ body)) = front ++ (words ++ '_' :: body) ↔
      markOffset? true (front ++ (words ++ body)) = some (front.length + words.length) := by
  have place : markAt (front ++ (words ++ body)) (front.length + words.length) =
      front ++ (words ++ '_' :: body) := by
    rw [markAt, ← List.append_assoc, ← List.length_append, List.take_left, List.drop_left,
      List.append_assoc]
  have before : (front ++ (words ++ body)).take (front.length + words.length) = front ++ words := by
    rw [← List.append_assoc, ← List.length_append, List.take_left]
  rw [markFrom_eq]
  constructor
  · intro same
    cases marked : markOffset? true (front ++ (words ++ body)) with
    | none =>
      rw [marked] at same
      have size := congrArg List.length same
      simp at size
    | some offset =>
      rw [marked, Option.map_some, Option.getD_some, ← place] at same
      obtain ⟨inside, others, _, otherWords, shape, areWords⟩ := exists_words_of_markOffset? marked
      rw [eq_of_markAt_eq same inside.le (by simp) (shape ▸ blank_of_words areWords)
        (before ▸ blank_of_words isWords)]
  · intro marked
    rw [marked, Option.map_some, Option.getD_some, place]

/-- Behind words, the title that splitting reads is marked if and only if a blank follows it. -/
theorem markOffset?_words_iff {body rest blanks : List Char} (isWords : Words isInterface words)
    (parts : body ++ blanks = title ++ rest) (visible : Visible (title ++ rest))
    (inhabited : title ≠ []) (whole : (title ++ rest).takeWhile isWord = title) :
    markOffset? true (words ++ body) = some words.length ↔
      ∃ c after, body = title ++ c :: after ∧ isBlank c = true := by
  constructor
  · intro marked
    obtain ⟨front, back, place, shape, markable, size⟩ := exists_of_markOffset? marked
    obtain @⟨_, blanksToo, others, titleToo, after, c, all, areWords, _, _, word, stops, blank⟩ :=
      markable
    have before : words = front ++ blanksToo ++ others := by
      have taken := congrArg (List.take words.length) shape
      rw [List.take_left, size, List.take_length_add_append, ← List.append_assoc blanksToo,
        ← List.length_append, List.take_left] at taken
      rw [taken, List.append_assoc]
    have same : others = words := isWords.eq_of_suffix areWords ⟨_, before.symm⟩
    subst same
    have nothing : front ++ blanksToo = [] := List.append_left_eq_self.1 before.symm
    rw [← List.append_assoc, nothing, List.nil_append] at shape
    have behind := List.append_cancel_left shape
    have title_eq : titleToo = title := by
      rw [← whole, ← parts, behind, List.append_assoc, List.cons_append,
        takeWhile_title word stops]
    exact ⟨c, after, by rw [behind, title_eq], blank⟩
  · rintro ⟨c, after, rfl, blank⟩
    have next : rest = c :: (after ++ blanks) := by
      rw [List.append_assoc] at parts
      exact (List.append_cancel_left parts).symm
    obtain ⟨word, stops⟩ := takeWhile_title_iff.1 whole
    refine markOffset?_of_titleOffset? (titleOffset?_eq_some_iff.2 ?_)
    have markable : Markable ([] ++ (words ++ (title ++ c :: after))) (0 + words.length) :=
      .of (by simp) isWords inhabited (visible.of_append inhabited) word
        (stops c (by rw [next]; rfl)) blank
    rwa [List.nil_append, Nat.zero_add] at markable

/-- Behind a comment, the same holds if no line of the comment can be marked. -/
theorem markOffset?_lead_iff {lead body : List Char} (closed : IsClosed lead)
    (line : Begins true lead) :
    markOffset? true (lead ++ (words ++ body)) = some (lead.length + words.length) ↔
      markOffset? true (words ++ body) = some words.length ∧
        ∀ lines line, lead = lines ++ line → Begins true lines → titleOffset? line = none := by
  rw [markOffset?_append closed line, ← markOffset?_eq_none_iff]
  cases marked : markOffset? true lead with
  | none => simp
  | some offset =>
    have inside := (exists_words_of_markOffset? marked).1
    simp only [Option.some_or, Option.some.injEq, reduceCtorEq, and_false, iff_false]
    omega

/-! ## The code of a definition -/

variable {stop begin : Nat}

/-- What stands in front of the words in the code of a definition is closed, and the words begin a
line. -/
theorem Cuts.lead_spec (cuts : Cuts text head offset begin stop) :
    IsClosed ((text.take offset).drop begin) ∧ Begins true ((text.take offset).drop begin) := by
  constructor
  · rw [cuts.begins]
    rcases commentStart_cases text offset with same | ⟨closed, found⟩
    · rw [same, List.drop_eq_nil_of_le (List.length_take_le offset text)]
      exact Or.inl (by simp)
    · obtain ⟨inner, shape⟩ := closed_drop closed found
      obtain ⟨blanks, parts, all⟩ :=
        exists_blanks ((text.take offset).drop (commentStart text offset))
      refine Or.inr ⟨inner.reverse ++ ['*'], blanks, ?_, all⟩
      have ending := congrArg List.reverse shape
      rw [List.reverse_reverse] at ending
      rw [← ending] at parts
      rw [parts]
      simp
  · by_cases nothing : (text.take offset).drop begin = []
    · exact Or.inl ⟨nothing, rfl⟩
    · rcases begins_of_findHead? cuts.found with ⟨none, _⟩ | line
      · rw [none] at nothing
        simp at nothing
      · rw [List.drop_eq_nil_iff, Nat.not_le] at nothing
        exact Or.inr (by rw [List.getLast?_drop, if_neg (by omega), line])

theorem Cuts.visible_slice {rest : List Char} (cuts : Cuts text head offset begin stop)
    (isWords : Words isInterface words) :
    Visible ((text.take offset).drop begin ++ (words ++ rest)) := by
  rcases Nat.lt_or_ge begin offset with back | same
  · obtain ⟨inner, opens⟩ := exists_of_commentStart_lt (cuts.begins ▸ back)
    obtain ⟨further, place⟩ : ∃ further, offset - begin = further + 1 := ⟨offset - begin - 1, by omega⟩
    rw [← cuts.begins] at opens
    rw [List.drop_take, opens, place, List.take_succ_cons, List.cons_append]
    exact visible_cons (by decide) _
  · rw [List.drop_eq_nil_of_le (by rw [List.length_take]; omega), List.nil_append]
    exact isWords.visible rest

/-- What a step takes is the comment above its head, and the head with what follows it. -/
theorem Cuts.exists_slice {after : List Char} (cuts : Cuts text head offset begin stop)
    (ends : Ends text) (shape : text.drop offset = words ++ (head.title ++ after))
    (width : head.width = words.length + head.title.length) :
    ∃ size, (text.take stop).drop begin =
      (text.take offset).drop begin ++ (words ++ (head.title ++ after.take size)) := by
  have progress := cuts.head_le_stop ends
  obtain ⟨size, further⟩ : ∃ size, stop - offset = words.length + (head.title.length + size) :=
    ⟨stop - offset - head.width, by omega⟩
  have behind : (text.take stop).drop offset = words ++ (head.title ++ after.take size) := by
    rw [List.drop_take, shape, further, List.take_length_add_append, List.take_length_add_append]
  have parts : text.take stop = text.take offset ++ (text.take stop).drop offset := by
    conv_lhs => rw [← List.take_append_drop offset (text.take stop)]
    rw [List.take_take, Nat.min_eq_left (by omega)]
  have inside : begin ≤ (text.take offset).length := by
    have bound := le_length_of_findHead? cuts.found
    rw [List.length_take_of_le (by omega)]
    exact cuts.start_le
  refine ⟨size, ?_⟩
  conv_lhs => rw [parts]
  rw [List.drop_append_of_le_length inside, behind]

/-- Only blanks behind a title are stripped if no blank comes first. -/
theorem trim_append_title {lead after : List Char} (visible : Visible (lead ++ (title ++ after)))
    (shown : Visible title) (inhabited : title ≠ []) :
    trim (lead ++ (title ++ after)) = lead ++ trimEnd (title ++ after) := by
  obtain ⟨c, more, rfl⟩ := List.exists_cons_of_ne_nil inhabited
  have first : isBlank c = false := shown c rfl
  have whole : trimEnd ([] ++ c :: (more ++ after)) = [] ++ c :: trimEnd (more ++ after) :=
    trimEnd_append_cons first
  rw [List.nil_append, List.nil_append] at whole
  rw [trim, ← List.nil_append (lead ++ _), visible.dropWhile_blanks (by simp), List.cons_append,
    trimEnd_append_cons first, whole]

/-- A title is as long as it can be in every part of a text that has all of it. -/
theorem takeWhile_title_take {after : List Char}
    (whole : (title ++ after).takeWhile isWord = title) (size : Nat) :
    (title ++ after.take size).takeWhile isWord = title := by
  obtain ⟨word, stops⟩ := takeWhile_title_iff.1 whole
  refine takeWhile_title_iff.2 ⟨word, fun c first => stops c ?_⟩
  cases size with
  | zero => simp at first
  | succ size => rwa [List.head?_take, if_neg (by omega)] at first

/-- The code of a definition is the comment above it, the words, and the title with what follows. -/
theorem Cuts.exists_code (cuts : Cuts text head offset begin stop) (ends : Ends text) :
    ∃ words body rest blanks, Words head.isInterface words ∧
      words.length + head.title.length = head.width ∧
      words ++ head.title <+: text.drop offset ∧
      trim ((text.take stop).drop begin) = (text.take offset).drop begin ++ (words ++ body) ∧
      body ++ blanks = head.title ++ rest ∧ Visible (head.title ++ rest) ∧ head.title ≠ [] ∧
      (head.title ++ rest).takeWhile isWord = head.title := by
  obtain ⟨words, after, isWords, shape, visible, inhabited, whole, width⟩ :=
    head?_eq_some_iff.1 cuts.head?
  have shown : Visible head.title := visible.of_append inhabited
  obtain ⟨size, slice⟩ := cuts.exists_slice ends shape width
  obtain ⟨blanks, parts, _⟩ := exists_blanks (head.title ++ after.take size)
  refine ⟨words, trimEnd (head.title ++ after.take size), after.take size, blanks, isWords,
    width.symm, ⟨after, by rw [shape, List.append_assoc]⟩, ?_, parts.symm,
    shown.append inhabited _, inhabited, takeWhile_title_take whole size⟩
  have begins : Visible ((text.take offset).drop begin ++ (words ++ (head.title ++ after.take size))) :=
    cuts.visible_slice isWords
  rw [← List.append_assoc] at begins
  rw [slice, ← List.append_assoc, trim_append_title begins shown inhabited, List.append_assoc]

/-! ## Marking a definition -/

/-- What a text has left after some steps. -/
def leftAfter (text : List Char) (steps : List (Definition × List Char)) : List Char :=
  (steps.getLast?.map (·.2)).getD text

theorem leftAfter_cons (text : List Char) (step : Definition × List Char)
    (steps : List (Definition × List Char)) :
    leftAfter text (step :: steps) = leftAfter step.2 steps := by
  rw [leftAfter, leftAfter, List.getLast?_cons]
  cases steps.getLast? <;> rfl

/-- The first of what splitting gives comes from a step, and what is left gives the others. -/
theorem exists_cuts_of_cons {more : List (Definition × List Char)} {piece : Definition × List Char}
    (ends : Ends text) (whole : (split text).definitions = piece :: more) :
    (∃ head offset begin stop, Cuts text head offset begin stop ∧
      piece = (definitionOf head ((text.take stop).drop begin), text.drop stop)) ∧
      Ends piece.2 ∧ (split piece.2).definitions = more := by
  rcases cases_of_split text with ⟨none, _⟩ | ⟨head, offset, begin, stop, cuts⟩
  · rw [none] at whole
    cases whole
  · have later := cuts.ends_drop ends
    rw [(cuts.split_eq ends).2.2] at whole
    cases whole
    exact ⟨⟨head, offset, begin, stop, cuts, rfl⟩, later, rfl⟩

/-- Whatever splitting gives, a step gave it, from what the steps before it had left. -/
theorem exists_cuts_of_split {before after : List (Definition × List Char)}
    {piece : Definition × List Char} (ends : Ends text)
    (whole : (split text).definitions = before ++ piece :: after) :
    Ends (leftAfter text before) ∧ ∃ head offset begin stop,
      Cuts (leftAfter text before) head offset begin stop ∧
      piece = (definitionOf head (((leftAfter text before).take stop).drop begin),
        (leftAfter text before).drop stop) := by
  induction before generalizing text with
  | nil => exact ⟨ends, (exists_cuts_of_cons ends whole).1⟩
  | cons first before ih =>
    obtain ⟨_, endsToo, later⟩ := exists_cuts_of_cons ends whole
    rw [leftAfter_cons]
    exact ih endsToo later

/-- Marking puts an underscore in front of the title that splitting read, and changes nothing else, if
and only if a blank follows that title in the code and no line of the comment above begins, blanks
aside, with words, a title and a blank. -/
theorem mark_iff {before after : List (Definition × List Char)} {piece : Definition × List Char}
    (ends : Ends text) (whole : (split text).definitions = before ++ piece :: after) :
    ∃ head offset begin stop words body,
      Cuts (leftAfter text before) head offset begin stop ∧
      piece = (definitionOf head (((leftAfter text before).take stop).drop begin),
        (leftAfter text before).drop stop) ∧
      Words head.isInterface words ∧ words.length + head.title.length = head.width ∧
      words ++ head.title <+: (leftAfter text before).drop offset ∧
      piece.1.code.toList = ((leftAfter text before).take offset).drop begin ++ (words ++ body) ∧
      ((mark piece.1.code).toList =
          ((leftAfter text before).take offset).drop begin ++ (words ++ '_' :: body) ↔
        (∃ c rest, body = head.title ++ c :: rest ∧ isBlank c = true) ∧
        ∀ lines line, ((leftAfter text before).take offset).drop begin = lines ++ line →
          Begins true lines → titleOffset? line = none) := by
  obtain ⟨endsToo, head, offset, begin, stop, cuts, rfl⟩ := exists_cuts_of_split ends whole
  obtain ⟨words, body, rest, blanks, isWords, width, inside, code, parts, visible, inhabited, longest⟩ :=
    cuts.exists_code endsToo
  obtain ⟨closed, line⟩ := cuts.lead_spec
  refine ⟨head, offset, begin, stop, words, body, cuts, rfl, isWords, width, inside, ?_, ?_⟩
  · rw [definitionOf, String.toList_ofList, code]
  · rw [definitionOf, mark, String.toList_ofList, String.toList_ofList, code, markFrom_eq_iff isWords,
      markOffset?_lead_iff closed line, markOffset?_words_iff isWords parts visible inhabited longest]

/-- A declaration behind a comment, which is marked. -/
def commented : List Char := "/* a */\nexport type A = B".toList

theorem mark_commented : Ends commented ∧ ∃ piece, (split commented).definitions = [] ++ piece :: [] ∧
    piece.1.code.toList = commented ∧
    (mark piece.1.code).toList = "/* a */\nexport type _A = B".toList := by
  have step : Source.next? commented = .ok (some (⟨"A", String.ofList commented⟩, [])) := by rfl
  have whole : IsSplit commented [⟨"A", String.ofList commented⟩] :=
    isSplit_cons step (by decide) (isSplit_of_none rfl)
  have ends := ends_of_fine whole.1
  obtain ⟨piece, only, isFirst⟩ := List.map_eq_singleton_iff.1 whole.2
  obtain ⟨head, offset, begin, stop, words, body, cuts, _, _, width, _, code, marked⟩ :=
    @mark_iff commented [] [] piece ends only
  have found : findHead? true commented = some (8, ⟨false, ['A'], 13⟩) := by rfl
  have first : findHead? true commented = some (offset, head) := cuts.found
  rw [found] at first
  cases first
  have start : begin = 0 := cuts.begins
  subst start
  have lead : ((leftAfter commented []).take 8).drop 0 = "/* a */\n".toList := by rfl
  have isCode : piece.1.code.toList = commented := by rw [isFirst, String.toList_ofList]
  have parts : "/* a */\n".toList ++ ("export type ".toList ++ "A = B".toList) =
      "/* a */\n".toList ++ (words ++ body) := by
    rw [← lead, ← code, isCode]
    rfl
  have size : words.length + 1 = 13 := width
  obtain ⟨rfl, rfl⟩ := List.append_inj (List.append_cancel_left parts) (by
    rw [Nat.succ.inj size]
    rfl)
  refine ⟨ends, piece, only, isCode, (marked.2 ⟨⟨' ', "= B".toList, rfl, by decide⟩, ?_⟩).trans ?_⟩
  · rw [lead]
    exact markOffset?_eq_none_iff.1 (by rfl)
  · rw [lead]
    rfl

/-- A title with a brace behind it is split off and not marked. -/
theorem mark_braced : IsSplit "export interface A\x7b\x7d".toList [⟨"A", "export interface A\x7b\x7d"⟩] ∧
    mark "export interface A\x7b\x7d" = "export interface A\x7b\x7d" := by
  have step : Source.next? "export interface A\x7b\x7d".toList =
      .ok (some (⟨"A", "export interface A\x7b\x7d"⟩, [])) := by rfl
  exact ⟨isSplit_cons step (by decide) (isSplit_of_none rfl), by decide⟩

end Typewright.Source
