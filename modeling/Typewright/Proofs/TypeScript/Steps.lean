import Typewright.Proofs.TypeScript.Blocks
import Typewright.Proofs.TypeScript.Heads

/-!
# Steps of splitting

A step finds the first head of a text and takes the code from one offset to another
(`Source.Cuts`). The end of an alias is moved back to the last opening of a comment before the next
head, and nothing in the text itself keeps that opening behind the alias. It lies in front of the
alias only if the text that is left begins with it; then the same head is found in what is left, and
the next step leaves that as it is. So whenever splitting ends at all, each step takes its head and at
least the title with it (`Source.Cuts.head_le_stop`).

The slices that the steps take of the whole text are therefore not empty, do not overlap and come in
order (`Source.exists_taken`).
-/

namespace Typewright.Source

open Text

variable {text : List Char} {offset start stop : Nat} {head : Head} {definition : Definition}
  {rest : List Char}

/-! ## One step -/

/-- Where a step cuts a text: the head that it finds, and the beginning and the end of the code. -/
structure Cuts (text : List Char) (head : Head) (offset start stop : Nat) : Prop where
  found : findHead? true text = some (offset, head)
  begins : start = commentStart text offset
  ends : endOfCode text head (offset + head.width) = .ok stop

/-- The definition that a step gives. -/
def definitionOf (head : Head) (slice : List Char) : Definition :=
  ⟨String.ofList head.title, String.ofList (trim slice)⟩

theorem Cuts.next? (cuts : Cuts text head offset start stop) : Source.next? text =
    .ok (some (definitionOf head ((text.take stop).drop start), text.drop stop)) := by
  rw [Source.next?, cuts.found, cuts.begins]
  simp only [cuts.ends]
  rfl

theorem exists_cuts (given : next? text = .ok (some (definition, rest))) :
    ∃ head offset start stop, Cuts text head offset start stop ∧
      definition = definitionOf head ((text.take stop).drop start) ∧ rest = text.drop stop := by
  rw [Source.next?] at given
  cases found : findHead? true text with
  | none =>
    rw [found] at given
    cases given
  | some pair =>
    obtain ⟨offset, head⟩ := pair
    rw [found] at given
    simp only at given
    cases ends : endOfCode text head (offset + head.width) with
    | error failure =>
      rw [ends] at given
      cases given
    | ok stop =>
      rw [ends] at given
      cases given
      exact ⟨head, offset, _, stop, ⟨found, rfl, ends⟩, rfl, rfl⟩

theorem findHead?_of_next?_none (ended : next? text = .ok none) : findHead? true text = none := by
  rw [Source.next?] at ended
  cases found : findHead? true text with
  | none => rfl
  | some pair =>
    rw [found] at ended
    simp only at ended
    cases ends : endOfCode text pair.2 (pair.1 + pair.2.width) with
    | error failure =>
      rw [ends] at ended
      cases ended
    | ok stop =>
      rw [ends] at ended
      cases ended

/-! ## Openings of comments -/

theorem commentStart_cases (text : List Char) (offset : Nat) :
    commentStart text offset = offset ∨
      (['/', '*'] <+: (trimEnd (text.take offset)).reverse ∧
        findLast? ['/', '*'] (text.take offset) = some (commentStart text offset)) := by
  rw [commentStart]
  split
  · next closed =>
    cases found : findLast? ['/', '*'] (text.take offset) with
    | none => exact Or.inl rfl
    | some opening => exact Or.inr ⟨List.isPrefixOf_iff_prefix.1 closed, rfl⟩
  · exact Or.inl rfl

/-- A comment that is found for an offset opens in front of it. -/
theorem exists_opening {front : List Char} {opening : Nat}
    (found : findLast? ['/', '*'] front = some opening) :
    opening + 2 ≤ front.length ∧ ∃ inner, front.drop opening = '/' :: '*' :: inner := by
  obtain ⟨inner, shape⟩ := prefix_of_findLast? found
  have size := congrArg List.length shape
  simp only [List.length_append, List.length_cons, List.length_nil, List.length_drop] at size
  exact ⟨by omega, inner, shape.symm⟩

theorem commentStart_le (text : List Char) (offset : Nat) : commentStart text offset ≤ offset := by
  rcases commentStart_cases text offset with same | ⟨_, found⟩
  · exact same.le
  · have inside := (exists_opening found).1
    have size := List.length_take_le offset text
    omega

/-- A comment that begins before an offset begins with its opening. -/
theorem exists_of_commentStart_lt (back : commentStart text offset < offset) :
    ∃ inner, text.drop (commentStart text offset) = '/' :: '*' :: inner := by
  obtain ⟨_, found⟩ := (commentStart_cases text offset).resolve_left (by omega)
  obtain ⟨_, inner, opens⟩ := exists_opening found
  rw [List.drop_take] at opens
  obtain ⟨more, shape⟩ := List.take_prefix (offset - commentStart text offset)
    (text.drop (commentStart text offset))
  rw [opens] at shape
  exact ⟨inner ++ more, shape.symm⟩

/-- The end of a comment is still there if the comment is taken from its last opening on. -/
theorem closed_drop {front : List Char} {opening : Nat}
    (closed : ['/', '*'] <+: (trimEnd front).reverse)
    (found : findLast? ['/', '*'] front = some opening) :
    ['/', '*'] <+: (trimEnd (front.drop opening)).reverse := by
  obtain ⟨more, shape⟩ := closed
  obtain ⟨blanks, parts, blank⟩ := exists_blanks front
  have ending : trimEnd front = more.reverse ++ ['*', '/'] := by
    rw [← List.reverse_reverse (trimEnd front), ← shape]
    simp
  have whole : front = (more.reverse ++ ['*']) ++ '/' :: blanks := by
    conv_lhs => rw [parts, ending]
    simp
  obtain ⟨_, inner, opens⟩ := exists_opening found
  -- neither the slash that ends the comment nor a blank behind it opens one
  have before : opening ≤ more.reverse.length := by
    by_contra behind
    have tail : front.drop opening <:+ '/' :: blanks := by
      rw [whole, List.drop_append, List.drop_eq_nil_of_le (by simp; simp at behind; omega),
        List.nil_append]
      exact List.drop_suffix _ _
    have star : '*' ∈ '/' :: blanks := tail.subset (by rw [opens]; simp)
    have visible := blank '*' ((List.mem_cons.1 star).resolve_left (by decide))
    revert visible
    decide
  have gone : trimEnd ([] ++ blanks) = [] := trimEnd_append_of_blank blank
  rw [List.nil_append] at gone
  rw [whole, List.drop_append_of_le_length (by rw [List.length_append]; omega),
    trimEnd_append_cons (by decide), gone, List.drop_append_of_le_length before]
  simp

/-- From the last opening on, a comment begins where the text does. -/
theorem commentStart_drop {opening : Nat} (moved : commentStart text offset = opening)
    (back : opening < offset) : commentStart (text.drop opening) (offset - opening) = 0 := by
  obtain ⟨closed, found⟩ := (commentStart_cases text offset).resolve_left (by omega)
  rw [moved] at found
  have still := List.isPrefixOf_iff_prefix.2 (closed_drop closed found)
  simp only [commentStart, ← List.drop_take, still, if_true, findLast?_drop found,
    Option.getD_some]

/-! ## The end of a declaration -/

/-- The reader of braces finds a closing brace no earlier than where it begins. -/
theorem bracePairFrom?_bounds {place : Place} {opening : Option Nat} {depth : Int} {begin : Nat}
    {pair : Nat × Nat} (found : bracePairFrom? place opening depth begin text = some pair) :
    begin ≤ pair.2 ∧ pair.2 < begin + text.length := by
  induction text generalizing place opening depth begin with
  | nil => cases found
  | cons c text ih =>
    have later : ∀ {opening : Option Nat} {depth : Int},
        bracePairFrom? (place.after c) opening depth (begin + 1) text = some pair →
        begin ≤ pair.2 ∧ pair.2 < begin + (c :: text).length := by
      intro opening depth foundLater
      have bounds := ih foundLater
      rw [List.length_cons]
      omega
    rw [bracePairFrom?] at found
    split at found
    · simp only at found
      generalize (if c = '\x7b' then opening.or (some begin) else opening) = opened at found
      cases opened with
      | none => exact later found
      | some first =>
        simp only at found
        split at found
        · cases found
          simp
        · exact later found
    · exact later found

theorem bracePair?_bounds {begin : Nat} {pair : Nat × Nat}
    (found : bracePair? text begin = some pair) : begin ≤ pair.2 ∧ pair.2 < text.length := by
  have bounds := bracePairFrom?_bounds found
  rw [List.length_drop] at bounds
  omega

/-- How a declaration ends: an interface behind the brace that closes it, an alias where the comment
above the next head begins, or that head, or at the end of the text. -/
theorem endOfCode_cases (ends : endOfCode text head offset = .ok stop) :
    (head.isInterface = true ∧ ∃ pair, bracePair? text offset = some pair ∧ stop = pair.2 + 1) ∨
      (head.isInterface = false ∧ ∃ distance next,
        findHead? false (text.drop offset) = some (distance, next) ∧
        stop = commentStart text (offset + distance)) ∨
      (head.isInterface = false ∧ findHead? false (text.drop offset) = none ∧
        stop = text.length) := by
  rw [endOfCode] at ends
  split at ends
  · next isInterface =>
    split at ends
    · next first last pair =>
      cases ends
      exact Or.inl ⟨isInterface, _, pair, rfl⟩
    · cases ends
  · next isAlias =>
    rw [Bool.not_eq_true] at isAlias
    split at ends
    · next distance next found =>
      cases ends
      exact Or.inr (Or.inl ⟨isAlias, _, _, found, rfl⟩)
    · next found =>
      cases ends
      exact Or.inr (Or.inr ⟨isAlias, found, rfl⟩)

/-! ## Progress -/

theorem Cuts.head? (cuts : Cuts text head offset start stop) :
    Source.head? (text.drop offset) = some head :=
  head?_of_findHead? cuts.found

theorem Cuts.start_le (cuts : Cuts text head offset start stop) : start ≤ offset :=
  cuts.begins ▸ commentStart_le text offset

/-- No comment opens in the words of a head. -/
theorem slash_notMem_words {isInterface : Bool} {words : List Char}
    (isWords : Words isInterface words) : '/' ∉ words := by
  obtain ⟨apart, follow⟩ := isWords
  have outside : '/' ∉ keyword isInterface := by
    cases isInterface <;> decide
  exact List.mem_append.not.2
    (not_or.2 ⟨by decide, notMem_behind_export apart follow (by decide) outside⟩)

/-- What stands at an offset within a head is no slash. -/
theorem ne_slash_of_head? {place : Nat} (read : Source.head? text = some head)
    (inside : place < head.width) : (text.drop place).head? ≠ some '/' := by
  obtain ⟨words, rest, isWords, shape, _, _, whole, width⟩ := head?_eq_some_iff.1 read
  rw [List.head?_drop, shape, ← List.append_assoc,
    List.getElem?_append_left (by rw [List.length_append]; omega)]
  intro here
  rcases List.mem_append.1 (List.mem_of_getElem? here) with inWords | inTitle
  · exact slash_notMem_words isWords inWords
  · rw [← whole] at inTitle
    have word := List.mem_takeWhile_imp inTitle
    revert word
    decide

/-- Where a step moves the end of its code back in front of its own head, what is left begins with
the comment above that head, and the next step takes nothing of it. -/
theorem Cuts.stuck (cuts : Cuts text head offset start stop) (short : stop < offset + head.width) :
    ∃ start, Cuts (text.drop stop) head (offset - stop) start 0 := by
  obtain ⟨found, _, ends⟩ := cuts
  rcases endOfCode_cases ends with ⟨_, pair, closes, rfl⟩ | ⟨isAlias, distance, next, follows, moved⟩ |
    ⟨_, _, rfl⟩
  · have bounds := bracePair?_bounds closes
    omega
  · have back : commentStart text (offset + head.width + distance) <
        offset + head.width + distance := by omega
    obtain ⟨inner, opens⟩ := exists_of_commentStart_lt back
    rw [← moved] at opens back
    have before : stop < offset := by
      by_contra inside
      have within : stop - offset < head.width := by omega
      refine ne_slash_of_head? (head?_of_findHead? found) within ?_
      rw [List.drop_drop, Nat.add_sub_cancel' (by omega), opens, List.head?_cons]
    have noHead : Source.head? (text.drop stop) = none := by
      rw [opens]
      exact head?_eq_none (by decide) _
    have still : findHead? true (text.drop stop) = some (offset - stop, head) := by
      obtain ⟨flag, same⟩ := exists_findHead?_drop found before.le
      rw [findHead?_of_head?_eq_none noHead] at same ⊢
      exact same
    refine ⟨_, still, rfl, ?_⟩
    have place : stop + (offset - stop + head.width) = offset + head.width := by omega
    have further : offset - stop + head.width + distance = offset + head.width + distance - stop := by
      omega
    rw [endOfCode, isAlias, if_neg (by simp), List.drop_drop, place, follows]
    simp only
    rw [further, commentStart_drop moved.symm back]
  · have inside := le_length_of_findHead? found
    omega

/-! ## Splitting that ends -/

/-- Splitting a text ends: no step leaves it as it is. -/
def Ends (text : List Char) : Prop :=
  (split text).failure ≠ some .endless

theorem Cuts.split_eq (cuts : Cuts text head offset start stop) (ends : Ends text) :
    0 < stop ∧ (text.drop stop).length < text.length ∧
      split text = { split (text.drop stop) with
        definitions := (definitionOf head ((text.take stop).drop start), text.drop stop) ::
          (split (text.drop stop)).definitions } := by
  have whole := split.eq_1 text
  rw [cuts.next?] at whole
  simp only at whole
  split at whole
  · next shorter =>
    refine ⟨?_, shorter, whole⟩
    rw [List.length_drop] at shorter
    omega
  · rw [Ends, whole] at ends
    exact absurd rfl ends

theorem Cuts.ends_drop (cuts : Cuts text head offset start stop) (ends : Ends text) :
    Ends (text.drop stop) := by
  rw [Ends, (cuts.split_eq ends).2.2] at ends
  exact ends

/-- A step takes its head, and everything from the beginning of its code up to there. -/
theorem Cuts.head_le_stop (cuts : Cuts text head offset start stop) (ends : Ends text) :
    offset + head.width ≤ stop := by
  by_contra short
  obtain ⟨begin, again⟩ := cuts.stuck (by omega)
  have progress := (again.split_eq (cuts.ends_drop ends)).1
  omega

theorem Cuts.stop_le (cuts : Cuts text head offset start stop) : stop ≤ text.length := by
  rcases endOfCode_cases cuts.ends with ⟨_, pair, closes, rfl⟩ | ⟨_, distance, next, follows, rfl⟩ |
    ⟨_, _, rfl⟩
  · exact (bracePair?_bounds closes).2
  · have inside := le_length_of_findHead? follows
    have moved := commentStart_le text (offset + head.width + distance)
    have before := le_length_of_findHead? cuts.found
    rw [List.length_drop] at inside
    omega
  · exact le_rfl

theorem Cuts.start_lt_stop (cuts : Cuts text head offset start stop) (ends : Ends text) :
    start < stop := by
  have progress := cuts.head_le_stop ends
  have before := cuts.start_le
  obtain ⟨words, rest, isWords, _, _, _, _, width⟩ := head?_eq_some_iff.1 cuts.head?
  have positive := List.length_pos_iff.2 isWords.ne_nil
  omega

/-- Splitting gives nothing, which is no failure only if there is no head, or it begins with a step. -/
theorem cases_of_split (text : List Char) :
    ((split text).definitions = [] ∧
      ((split text).failure = none → findHead? true text = none)) ∨
      ∃ head offset start stop, Cuts text head offset start stop := by
  have whole := split.eq_1 text
  cases step : Source.next? text with
  | error failure =>
    rw [step] at whole
    rw [whole]
    exact Or.inl ⟨rfl, by simp⟩
  | ok result =>
    cases result with
    | none =>
      rw [step] at whole
      rw [whole]
      exact Or.inl ⟨rfl, fun _ => findHead?_of_next?_none step⟩
    | some pair =>
      obtain ⟨head, offset, start, stop, cuts, _⟩ := exists_cuts step
      exact Or.inr ⟨head, offset, start, stop, cuts⟩

theorem ends_of_fine (fine : (split text).failure = none) : Ends text := by
  rw [Ends, fine]
  simp

/-- Each step leaves a shorter end of what it was given. -/
theorem isChain_rests (fine : (split text).failure = none) :
    List.IsChain (fun before after => after <:+ before ∧ after.length < before.length)
      (text :: (split text).definitions.map (·.2)) := by
  induction size : text.length using Nat.strong_induction_on generalizing text with
  | _ size ih =>
  subst size
  rcases cases_of_split text with ⟨none, _⟩ | ⟨head, offset, start, stop, cuts⟩
  · rw [none]
    exact .singleton text
  · obtain ⟨_, shorter, whole⟩ := cuts.split_eq (ends_of_fine fine)
    rw [whole] at fine ⊢
    exact .cons_cons ⟨List.drop_suffix stop text, shorter⟩ (ih _ shorter fine rfl)

/-! ## The slices of a whole text -/

/-- What the steps give and the slices that they take, for the part of a text from a place on. A slice
is told by where it begins and ends in the whole text. -/
inductive Taken (text : List Char) : Nat → List (Definition × List Char) → List (Nat × Nat) → Prop
  | done {base : Nat} (absent : findHead? true (text.drop base) = none) : Taken text base [] []
  | step {base offset start stop : Nat} {head : Head} {pieces : List (Definition × List Char)}
      {slices : List (Nat × Nat)} (cuts : Cuts (text.drop base) head offset start stop)
      (later : Taken text (base + stop) pieces slices) :
      Taken text base
        ((definitionOf head ((text.take (base + stop)).drop (base + start)),
          text.drop (base + stop)) :: pieces)
        ((base + start, base + stop) :: slices)

/-- A part of a text is split by steps that take slices of the whole text. They begin behind the place
where the part does, none is empty, and each begins where the one before it ends or later. -/
theorem exists_taken (base : Nat) (fine : (split (text.drop base)).failure = none) :
    ∃ slices, Taken text base (split (text.drop base)).definitions slices ∧
      (∀ slice ∈ slices, base ≤ slice.1 ∧ slice.1 < slice.2 ∧ slice.2 ≤ text.length) ∧
      slices.Pairwise fun one other => one.2 ≤ other.1 := by
  induction size : (text.drop base).length using Nat.strong_induction_on generalizing base with
  | _ size ih =>
  subst size
  rcases cases_of_split (text.drop base) with ⟨none, absent⟩ | ⟨head, offset, start, stop, cuts⟩
  · rw [none]
    exact ⟨[], .done (absent fine), by simp, .nil⟩
  · have ends := ends_of_fine fine
    obtain ⟨_, shorter, whole⟩ := cuts.split_eq ends
    have proper := cuts.start_lt_stop ends
    have inside := cuts.stop_le
    rw [List.length_drop] at inside
    rw [whole] at fine ⊢
    rw [List.drop_drop] at fine shorter ⊢
    obtain ⟨slices, later, bounds, sorted⟩ := ih _ shorter (base + stop) fine rfl
    refine ⟨(base + start, base + stop) :: slices, ?_, ?_, ?_⟩
    · have slice : ((text.drop base).take stop).drop start =
          (text.take (base + stop)).drop (base + start) := by
        rw [List.take_drop, List.drop_drop]
      rw [slice]
      exact .step cuts later
    · refine List.forall_mem_cons.2 ⟨⟨?_, ?_, ?_⟩, fun slice member => ?_⟩
      · exact Nat.le_add_right base start
      · exact Nat.add_lt_add_left proper base
      · have positive : base ≤ text.length := by
          by_contra outside
          rw [List.length_drop] at shorter
          omega
        change base + stop ≤ text.length
        omega
      · have bound := bounds slice member
        omega
    · exact List.pairwise_cons.2 ⟨fun slice member => (bounds slice member).1, sorted⟩

end Typewright.Source
