import Mathlib.Data.List.TakeWhile
import Typewright.Proofs.Outcome
import Typewright.Proofs.Toml.Written

/-!
# Reading literals as they are written

A written text is read in passes: one checks where the literal ends, one that every escape is known,
one resolves escapes of four digits, one those of eight, and one the short escapes. For each pass
there is what it makes of the form of a single character, and an induction over the text. Once an
escape by code point has been resolved, its pass no longer notices that a backslash is escaped; so
after a character that has such a form, a backslash must not stand before the letter of that form
(`Literal.isClear`).

`Literal.Survives` lists what a text needs in order to be read as it was written
(`Literal.value_written`).
-/

namespace Typewright.Toml

open Text

namespace Literal

/-! ## Backslashes at the end -/

theorem endsOpen_append_singleton (text : List Char) (c : Char) :
    endsOpen (text ++ [c]) = if c = '\\' then !endsOpen text else false := by
  rw [endsOpen, endsOpen, List.reverse_append, List.reverse_singleton, List.singleton_append]
  by_cases same : c = '\\'
  · rw [same, if_pos rfl, List.takeWhile_cons_of_pos (by decide), List.length_cons]
    rcases Nat.mod_two_eq_zero_or_one
      (text.reverse.takeWhile (· == '\\')).length with even | odd
    · rw [even, Nat.add_mod, even]
      rfl
    · rw [odd, Nat.add_mod, odd]
      rfl
  · rw [if_neg same, List.takeWhile_cons_of_neg (by simpa using same)]
    rfl

theorem endsOpen_append_of_not_mem (text : List Char) {more : List Char} (inhabited : more ≠ [])
    (absent : '\\' ∉ more) : endsOpen (text ++ more) = false := by
  rw [← List.dropLast_append_getLast inhabited, ← List.append_assoc, endsOpen_append_singleton,
    if_neg (ne_of_mem_of_not_mem (List.getLast_mem inhabited) absent)]

/-- The form of a character leaves an even number of backslashes even. -/
theorem endsOpen_append_form {m c : Char} {own form : List Char} (passes : Passes m c form)
    (even : endsOpen own = false) : endsOpen (own ++ form) = false := by
  cases passes with
  | backslash =>
    rw [← List.singleton_append, ← List.append_assoc, endsOpen_append_singleton,
      endsOpen_append_singleton, even]
    rfl
  | escape _ _ ends =>
    rw [← List.singleton_append, ← List.append_assoc]
    exact endsOpen_append_of_not_mem _ (List.cons_ne_nil _ _) ends
  | plain noBackslash => rw [endsOpen_append_singleton, if_neg noBackslash]

/-! ## Codes -/

theorem charOfCode_toNat (c : Char) : charOfCode c.toNat = .ok c := by
  have range : c.toNat < 0xD800 ∨ 0xDFFF < c.toNat ∧ c.toNat < 0x110000 := c.valid
  rw [charOfCode, if_neg (by omega), if_neg (by omega), if_neg (by omega), Char.ofNat_toNat]

theorem map_toLower_hexDigits (width n : Nat) :
    (hexDigits width n).map Char.toLower = hexDigits width n :=
  (List.map_congr_left (forall_mem_hexDigits (by decide) width n)).trans (List.map_id _)

/-- The digits of a code are read as the character, since no character has the code of half a pair. -/
theorem escapedChar_hexDigits {c : Char} (width : Nat) (wide : c.toNat < 16 ^ (width + 2))
    (noHalf : c.toNat / 16 ^ (width + 1) % 16 = 13 → c.toNat / 16 ^ width % 16 < 8) :
    escapedChar (hexDigits (width + 2) c.toNat) = .ok c := by
  have all : ∀ d ∈ hexDigits (width + 2) c.toNat, isHex d = true :=
    forall_mem_hexDigits (by decide) _ _
  have ends : (hexDigits (width + 2) c.toNat).dropWhile isHex = [] := List.dropWhile_eq_nil_iff.2 all
  have value := (congrArg charOfCode (hexValue_hexDigits wide)).trans (charOfCode_toNat c)
  have letter : ∀ k < 16, hexDigit k = 'd' → k = 13 := by decide
  have low : ∀ k < 8, (decide ('0' ≤ hexDigit k) && decide (hexDigit k ≤ '7')) = true := by decide
  have first := letter (c.toNat / 16 ^ (width + 1) % 16) (Nat.mod_lt _ (by decide))
  rw [hexDigits_succ, hexDigits_succ] at *
  have closed : ¬(!(List.dropWhile isHex [].reverse).isEmpty) = true := by decide
  unfold escapedChar
  rw [ends]
  dsimp only
  rw [if_neg closed]
  split
  · next same => exact absurd (List.cons.inj same).2 (List.cons_ne_nil _ _)
  · next second more same =>
    obtain ⟨half, rest⟩ := List.cons.inj same
    rw [← (List.cons.inj rest).1, if_pos (low _ (noHalf (first half))), value]
  · exact value

theorem escapedChar_four {c : Char} (coded : isFour c = true) :
    escapedChar ((hexDigits 4 c.toNat).map Char.toLower) = .ok c := by
  have range : c.toNat < 0xD800 ∨ 0xDFFF < c.toNat ∧ c.toNat < 0x110000 := c.valid
  simp only [isFour, Bool.and_eq_true, decide_eq_true_eq] at coded
  rw [map_toLower_hexDigits]
  exact escapedChar_hexDigits 2 coded.2.2 (by omega)

theorem escapedChar_eight {c : Char} :
    escapedChar ((hexDigits 8 c.toNat).map Char.toLower) = .ok c := by
  have range : c.toNat < 0xD800 ∨ 0xDFFF < c.toNat ∧ c.toNat < 0x110000 := c.valid
  rw [map_toLower_hexDigits]
  exact escapedChar_hexDigits 6 (by omega) (by omega)

/-! ## Resolving the escapes of one mark -/

/-- The forms of a character before and after the escapes of a mark are resolved. -/
inductive Resolves (m : Char) (width : Nat) (coded : Char → Bool) (c : Char) :
    List Char → List Char → Prop
  | code {digits : List Char} (isCoded : coded c = true) (count : digits.length = width)
    (ends : '\\' ∉ digits) (stands : escapedChar (digits.map Char.toLower) = .ok c) :
    Resolves m width coded c ('\\' :: m :: digits) [c]
  | same {form : List Char} (uncoded : coded c = false) (passes : Passes m c form) :
    Resolves m width coded c form form

/-- A text of which one part is read and the pieces of the rest are given goes on to be read as the
text before and the target. A code has been resolved before. -/
def ReadsOn (m : Char) (width : Nat) (source target : List Char) : Prop :=
  ∀ before piece pieces, pairPieces '\\' m source = piece :: pieces →
    resolveCodes ['\\', m] width (before ++ piece) false pieces = .ok (before ++ target)

/-- The same where no code has been resolved: `own` is what has been read of the piece, and `odd`
says whether it ends in an odd number of backslashes. -/
def Reads (m : Char) (width : Nat) (odd : Bool) (source target : List Char) : Prop :=
  ∀ own before piece pieces, endsOpen own = odd → pairPieces '\\' m source = piece :: pieces →
    resolveCodes ['\\', m] width (before ++ piece) (endsOpen (own ++ piece)) pieces =
      .ok (before ++ target)

section

variable {m : Char} {width : Nat} {coded : Char → Bool} {c : Char} {form source target : List Char}

/-- Nothing is left to resolve in the quote at the end. -/
theorem ReadsOn.quote : ReadsOn m width ['"'] ['"'] := by
  intro before piece pieces given
  cases given
  rfl

theorem ReadsOn.passes (rest : ReadsOn m width source target) (passes : Passes m c form)
    (letter : m ≠ '\\') (apart : c = '\\' → source.head? ≠ some m) :
    ReadsOn m width (form ++ source) (form ++ target) := by
  intro before piece pieces given
  obtain ⟨piece', pieces', later⟩ := exists_pairPieces '\\' m source
  rw [passes.pairPieces letter apart later] at given
  cases given
  rw [← List.append_assoc, rest (before ++ form) piece' pieces later, List.append_assoc]

/-- Resolving the code of a character. -/
theorem resolveCodes_code {digits before piece : List Char} {pieces : List (List Char)}
    (rest : ReadsOn m width source target) (count : digits.length = width) (ends : '\\' ∉ digits)
    (stands : escapedChar (digits.map Char.toLower) = .ok c)
    (given : pairPieces '\\' m (digits ++ source) = piece :: pieces) :
    resolveCodes ['\\', m] width before false (piece :: pieces) = .ok (before ++ c :: target) := by
  obtain ⟨piece', pieces', later⟩ := exists_pairPieces '\\' m source
  rw [pairPieces_append ends later] at given
  cases given
  have read := rest (before ++ [c]) piece' pieces later
  rw [List.append_assoc, List.append_assoc, List.singleton_append, List.singleton_append] at read
  rw [resolveCodes, ← count, List.take_left, List.drop_left, stands]
  rwa [← count] at read

theorem ReadsOn.code {digits : List Char} (rest : ReadsOn m width source target)
    (count : digits.length = width) (ends : '\\' ∉ digits)
    (stands : escapedChar (digits.map Char.toLower) = .ok c) :
    ReadsOn m width ('\\' :: m :: digits ++ source) (c :: target) := by
  intro before piece pieces given
  rw [List.cons_append, List.cons_append, pairPieces_mark] at given
  obtain ⟨rfl, rfl⟩ := List.cons.inj given
  obtain ⟨next, more, inside⟩ := exists_pairPieces '\\' m (digits ++ source)
  rw [inside, List.append_nil]
  exact resolveCodes_code rest count ends stands inside

theorem Reads.quote : Reads m width false ['"'] ['"'] := by
  intro own before piece pieces even given
  cases given
  rfl

/-- A form that is no backslash does not change the count of backslashes before what follows. -/
theorem Reads.passes (rest : Reads m width false source target) (passes : Passes m c form)
    (letter : m ≠ '\\') (other : c ≠ '\\') :
    Reads m width false (form ++ source) (form ++ target) := by
  intro own before piece pieces even given
  obtain ⟨piece', pieces', later⟩ := exists_pairPieces '\\' m source
  rw [passes.pairPieces letter (fun same => absurd same other) later] at given
  cases given
  rw [← List.append_assoc, ← List.append_assoc, rest (own ++ form) (before ++ form) piece' pieces
    (endsOpen_append_form passes even) later, List.append_assoc]

theorem Reads.code {digits : List Char} (rest : ReadsOn m width source target)
    (count : digits.length = width) (ends : '\\' ∉ digits)
    (stands : escapedChar (digits.map Char.toLower) = .ok c) :
    Reads m width false ('\\' :: m :: digits ++ source) (c :: target) := by
  intro own before piece pieces even given
  rw [List.cons_append, List.cons_append, pairPieces_mark] at given
  obtain ⟨rfl, rfl⟩ := List.cons.inj given
  obtain ⟨next, more, inside⟩ := exists_pairPieces '\\' m (digits ++ source)
  rw [inside, List.append_nil, List.append_nil, even]
  exact resolveCodes_code rest count ends stands inside

/-- The first backslash of two. -/
theorem Reads.backslash (rest : Reads m width true ('\\' :: source) ('\\' :: target))
    (letter : m ≠ '\\') :
    Reads m width false ('\\' :: '\\' :: source) ('\\' :: '\\' :: target) := by
  intro own before piece pieces even given
  obtain ⟨piece', pieces', later⟩ := exists_pairPieces '\\' m ('\\' :: source)
  rw [pairPieces_cons fun _ first => letter (by simpa using first.symm), later] at given
  cases given
  have odd : endsOpen (own ++ ['\\']) = true := by
    rw [endsOpen_append_singleton, if_pos rfl, even]
    rfl
  have read := rest (own ++ ['\\']) (before ++ ['\\']) piece' pieces odd later
  rwa [List.append_assoc, List.append_assoc, List.append_assoc] at read

/-- The second backslash of two, where no mark begins with it. -/
theorem Reads.escaped (rest : Reads m width false source target)
    (apart : source.head? ≠ some m) : Reads m width true ('\\' :: source) ('\\' :: target) := by
  intro own before piece pieces odd given
  obtain ⟨piece', pieces', later⟩ := exists_pairPieces '\\' m source
  rw [pairPieces_cons fun _ => apart, later] at given
  cases given
  have even : endsOpen (own ++ ['\\']) = false := by
    rw [endsOpen_append_singleton, if_pos rfl, odd]
    rfl
  have read := rest (own ++ ['\\']) (before ++ ['\\']) piece' pieces even later
  rwa [List.append_assoc, List.append_assoc, List.append_assoc] at read

/-- The second backslash of two and the letter of a mark after it are no mark. -/
theorem Reads.escapedMark (rest : Reads m width false source target) :
    Reads m width true ('\\' :: m :: source) ('\\' :: m :: target) := by
  intro own before piece pieces odd given
  obtain ⟨piece', pieces', later⟩ := exists_pairPieces '\\' m source
  rw [pairPieces_mark, later] at given
  cases given
  have read := rest [] (before ++ ['\\', m]) piece' pieces' rfl later
  rw [List.append_assoc before _ target] at read
  rw [List.append_nil, List.append_nil, odd, resolveCodes]
  exact read

end

/-! ## Whole texts -/

/-- Whether no mark comes after a character that is written by a code of this mark. -/
def isClear (m : Char) (coded : Char → Bool) : List Char → Bool
  | [] => true
  | c :: rest => !(coded c && decide (['\\', m] <:+: rest)) && isClear m coded rest

section

variable {m : Char} {width : Nat} {coded : Char → Bool} {c : Char} {form text : List Char}
  {F G : Char → List Char}

theorem Resolves.inhabited {after : List Char} (resolves : Resolves m width coded c form after) :
    form ≠ [] := by
  cases resolves with
  | code => exact List.cons_ne_nil _ _
  | same _ passes => exact passes.inhabited

theorem Resolves.eq_of_head? {after : List Char} (resolves : Resolves m width coded c form after)
    (letter : m ≠ '\\') (first : form.head? = some m) : c = m ∧ form = [m] ∧ after = [m] := by
  cases resolves with
  | code => exact absurd (Option.some.inj first).symm letter
  | same _ passes =>
    have same := passes.eq_of_head? letter first
    cases passes with
    | plain => exact ⟨same, congrArg (fun d => [d]) same, congrArg (fun d => [d]) same⟩
    | _ => exact absurd (Option.some.inj first).symm letter

/-- A text after a code, in which no mark occurs, is read as it is but for its codes. -/
theorem readsOn_flatMap (forms : ∀ c ∈ text, Resolves m width coded c (F c) (G c))
    (letter : m ≠ '\\') (noQuote : m ≠ '"') (absent : ¬ ['\\', m] <:+: text) :
    ReadsOn m width (text.flatMap F ++ ['"']) (text.flatMap G ++ ['"']) := by
  induction text with
  | nil => exact .quote
  | cons c text ih =>
    rw [pair_infix_cons_iff, not_or] at absent
    have later : ∀ d ∈ text, Resolves m width coded d (F d) (G d) := fun d member =>
      forms d (List.mem_cons_of_mem _ member)
    have rest := ih later absent.2
    have here := forms c List.mem_cons_self
    rw [List.flatMap_cons, List.flatMap_cons, List.append_assoc, List.append_assoc]
    generalize F c = form, G c = after at here ⊢
    cases here with
    | code _ count ends stands => exact rest.code count ends stands
    | same _ passes =>
      refine rest.passes passes letter fun same => ?_
      exact head?_flatMap_ne (fun d member => (later d member).inhabited)
        (fun d member first => ((later d member).eq_of_head? letter first).1)
        (fun first => absent.1 ⟨same, first⟩) (by simpa using Ne.symm noQuote)

/-- A text in which no mark comes after a code is read as it is but for its codes, also where it
stands between two backslashes. -/
theorem reads_flatMap (forms : ∀ c ∈ text, Resolves m width coded c (F c) (G c))
    (letter : m ≠ '\\') (noQuote : m ≠ '"') (clear : isClear m coded text = true) :
    Reads m width false (text.flatMap F ++ ['"']) (text.flatMap G ++ ['"']) ∧
      Reads m width true ('\\' :: (text.flatMap F ++ ['"'])) ('\\' :: (text.flatMap G ++ ['"'])) := by
  induction text with
  | nil => exact ⟨.quote, Reads.quote.escaped (by simpa using Ne.symm noQuote)⟩
  | cons c text ih =>
    rw [isClear, Bool.and_eq_true, Bool.not_eq_true', Bool.and_eq_false_iff,
      decide_eq_false_iff_not] at clear
    have later : ∀ d ∈ text, Resolves m width coded d (F d) (G d) := fun d member =>
      forms d (List.mem_cons_of_mem _ member)
    obtain ⟨even, odd⟩ := ih later clear.2
    have first : Reads m width false ((c :: text).flatMap F ++ ['"'])
        ((c :: text).flatMap G ++ ['"']) := by
      have here := forms c List.mem_cons_self
      rw [List.flatMap_cons, List.flatMap_cons, List.append_assoc, List.append_assoc]
      generalize F c = form, G c = after at here ⊢
      cases here with
      | code isCoded count ends stands =>
        have absent : ¬ ['\\', m] <:+: text := clear.1.resolve_left (by simp [isCoded])
        exact .code (readsOn_flatMap later letter noQuote absent) count ends stands
      | same _ passes =>
        by_cases backslash : c = '\\'
        · cases passes with
          | backslash => exact odd.backslash letter
          | escape other => exact absurd backslash other
          | plain other => exact absurd backslash other
        · exact even.passes passes letter backslash
    refine ⟨first, ?_⟩
    by_cases mark : ((c :: text).flatMap F ++ ['"']).head? = some m
    · -- the second backslash and this character make a mark that is none
      have here := forms c List.mem_cons_self
      rw [List.flatMap_cons, List.append_assoc, List.head?_append_of_ne_nil _ here.inhabited] at mark
      obtain ⟨_, source, target⟩ := here.eq_of_head? letter mark
      rw [List.flatMap_cons, List.flatMap_cons, source, target]
      exact even.escapedMark
    · exact first.escaped mark

/-- Resolving the escapes of a mark. -/
theorem resolveForm_flatMap (forms : ∀ c ∈ text, Resolves m width coded c (F c) (G c))
    (letter : m ≠ '\\') (noQuote : m ≠ '"') (clear : isClear m coded text = true) :
    resolveForm ['\\', m] width ('"' :: (text.flatMap F ++ ['"'])) =
      .ok ('"' :: (text.flatMap G ++ ['"'])) := by
  obtain ⟨piece, pieces, inside⟩ := exists_pairPieces '\\' m (text.flatMap F ++ ['"'])
  have read := (reads_flatMap forms letter noQuote clear).1 ['"'] ['"'] piece pieces rfl inside
  rw [resolveForm, splitAtText_pair _ (Nat.le_refl _),
    pairPieces_cons fun same => absurd same (by decide),
    inside]
  exact read

end

/-! ## The stages of a literal -/

/-- A character in a literal whose codes of four digits are resolved. -/
def withoutFour (c : Char) : List Char :=
  if isFour c then [c] else Display.quotedChar '"' c

/-- A character in a literal whose codes are resolved. -/
def withoutCodes (c : Char) : List Char :=
  if isEight c then [c] else withoutFour c

section

variable {c : Char}

theorem resolves_four (writable : isWritable c = true) :
    Resolves 'u' 4 isFour c (Display.quotedChar '"' c) (withoutFour c) := by
  rw [withoutFour]
  cases four : isFour c with
  | true =>
    rw [if_pos rfl, quotedChar_of_isFour four]
    exact .code four (length_hexDigits 4 _) (fun member => (hexDigits_spec 4 _ _ member).2.1 rfl)
      (escapedChar_four four)
  | false =>
    rw [if_neg (by decide)]
    refine .same four ((shown_quotedChar '"' writable).passes (by decide) ?_ ?_ fun _ => by decide)
    · rintro rfl
      decide
    · intro coded
      rw [four] at coded
      cases coded

theorem resolves_eight (writable : isWritable c = true) :
    Resolves 'U' 8 isEight c (withoutFour c) (withoutCodes c) := by
  cases eight : isEight c with
  | true =>
    have four : isFour c = false := by
      simp only [isEight, isFour, Bool.and_eq_true, Bool.not_eq_true', decide_eq_true_eq] at eight ⊢
      simp [eight.1, eight.2]
    rw [withoutCodes, eight, if_pos rfl, withoutFour, four, if_neg Bool.false_ne_true,
      quotedChar_of_isEight eight]
    exact .code eight (length_hexDigits 8 _) (fun member => (hexDigits_spec 8 _ _ member).2.1 rfl)
      escapedChar_eight
  | false =>
    rw [withoutCodes, eight, if_neg Bool.false_ne_true, withoutFour]
    refine .same eight ?_
    cases four : isFour c with
    | true =>
      refine .plain ?_
      rintro rfl
      exact absurd four (by decide)
    | false =>
      refine (shown_quotedChar '"' writable).passes (by decide) ?_ ?_ ?_
      · rintro rfl
        decide
      · intro coded
        rw [four] at coded
        cases coded
      · intro coded
        rw [eight] at coded
        cases coded

end

/-! ## Literals -/

section

variable {text : List Char}

theorem written_passes {c : Char} (writable : isWritable c = true) :
    Passes 'x' c (Display.quotedChar '"' c) :=
  (shown_quotedChar _ writable).passes (by decide) (fun same => by rw [same]; decide)
    (fun _ => by decide) (fun _ => by decide)

theorem knowsEscapes_escape {letter : Char} {more rest : List Char}
    (known : (letter == 'u' || letter == 'U' || escapes.any (·.1 == letter)) = true)
    (ends : '\\' ∉ letter :: more)
    (later : knowsEscapes false ((splitAtChar '\\' rest).drop 1) = true) :
    knowsEscapes false ((splitAtChar '\\' ('\\' :: letter :: more ++ rest)).drop 1) = true := by
  obtain ⟨piece, pieces, inside⟩ := exists_splitAtChar '\\' rest
  rw [inside] at later
  rw [List.cons_append, splitAtChar, if_pos rfl, splitAtChar_append_of_not_mem ends inside,
    List.drop_one, List.tail_cons, List.cons_append, knowsEscapes, Bool.false_or, known]
  exact later

/-- All escapes of a literal are known. -/
theorem knowsEscapes_written (writable : ∀ c ∈ text, isWritable c = true) :
    knowsEscapes false ((splitAtChar '\\' (written text ++ ['"'])).drop 1) = true := by
  induction text with
  | nil => rfl
  | cons c text ih =>
    have later := ih fun d member => writable d (List.mem_cons_of_mem _ member)
    have shown := shown_quotedChar '"' (writable c List.mem_cons_self)
    have digits (width : Nat) : '\\' ∉ hexDigits width c.toNat :=
      fun member => (hexDigits_spec width c.toNat _ member).2.1 rfl
    rw [written_cons, List.append_assoc]
    generalize Display.quotedChar '"' c = form at shown ⊢
    cases shown with
    | escaped special =>
      rcases special with rfl | rfl
      · exact knowsEscapes_escape (by decide) (by decide) later
      · obtain ⟨piece, pieces, inside⟩ := exists_splitAtChar '\\' (written text ++ ['"'])
        rw [inside] at later
        rw [List.cons_append, List.singleton_append, splitAtChar, if_pos rfl, splitAtChar,
          if_pos rfl, inside, List.drop_one, List.tail_cons, knowsEscapes]
        cases piece <;> exact later
    | short known =>
      simp only [shorts, List.mem_cons, Prod.mk.injEq, List.not_mem_nil, or_false] at known
      rcases known with ⟨_, rfl⟩ | ⟨_, rfl⟩ | ⟨_, rfl⟩ <;>
        exact knowsEscapes_escape (by decide) (by decide) later
    | plain noMark noBackslash =>
      obtain ⟨piece, pieces, inside⟩ := exists_splitAtChar '\\' (written text ++ ['"'])
      rw [inside] at later
      rw [splitAtChar_append_of_not_mem (by simpa using Ne.symm noBackslash) inside]
      exact later
    | four => exact knowsEscapes_escape (by decide) (by simpa using digits 4) later
    | eight => exact knowsEscapes_escape (by decide) (by simpa using digits 8) later

/-- The quotes inside a literal are escaped, and the one at its end closes it. -/
theorem isClosed_written (writable : ∀ c ∈ text, isWritable c = true) (own : List Char)
    {piece : List Char} {pieces : List (List Char)} (even : endsOpen own = false)
    (given : splitAtChar '"' (written text ++ ['"']) = piece :: pieces) :
    isClosed false false 0 ((own ++ piece) :: pieces) = true := by
  induction text generalizing own piece pieces with
  | nil =>
    cases given
    rw [List.append_nil, isClosed, even]
    cases own <;> rfl
  | cons c text ih =>
    have later : ∀ d ∈ text, isWritable d = true := fun d member =>
      writable d (List.mem_cons_of_mem _ member)
    have here := writable c List.mem_cons_self
    obtain ⟨piece', pieces', inside⟩ := exists_splitAtChar '"' (written text ++ ['"'])
    rw [written_cons, List.append_assoc] at given
    by_cases quote : c = '"'
    · have form : Display.quotedChar '"' c = ['\\', '"'] := by
        rw [quote]
        decide
      have split : splitAtChar '"' (['\\', '"'] ++ (written text ++ ['"'])) =
          ['\\'] :: piece' :: pieces' := by
        rw [← inside]
        exact splitAtChar_append (t := ['\\']) _ (by decide)
      rw [form, split] at given
      cases given
      have odd : endsOpen (own ++ ['\\']) = true := by
        rw [endsOpen_append_singleton, if_pos rfl, even]
        rfl
      have filled : (own ++ ['\\']).isEmpty = false := by simp
      rw [isClosed, filled, if_neg Bool.false_ne_true, odd, if_pos rfl]
      exact ih later [] rfl inside
    · rw [splitAtChar_append_of_not_mem ((shown_quotedChar '"' here).noQuote quote) inside] at given
      cases given
      rw [← List.append_assoc]
      exact ih later _ (endsOpen_append_form (written_passes here) even) inside

theorem unescape_cons {c : Char} {rest : List Char} (noBackslash : c ≠ '\\') :
    unescape (c :: rest) = (unescape rest).map (c :: ·) := by
  rw [unescape]
  · exact fun same => absurd same noBackslash
  · exact fun _ _ same => absurd same noBackslash

/-- Resolving a short escape. -/
theorem unescape_short {c letter : Char} {rest : List Char}
    (known : (letter, c) ∈ [('n', '\n'), ('r', '\r'), ('t', '\t'), ('"', '"'), ('\\', '\\')]) :
    unescape ('\\' :: letter :: rest) = (unescape rest).map (c :: ·) := by
  simp only [List.mem_cons, Prod.mk.injEq, List.not_mem_nil, or_false] at known
  rcases known with ⟨rfl, rfl⟩ | ⟨rfl, rfl⟩ | ⟨rfl, rfl⟩ | ⟨rfl, rfl⟩ | ⟨rfl, rfl⟩ <;> rfl

/-- A character whose code is resolved stands for itself once the short escapes are resolved. -/
theorem unescape_withoutCodes {c : Char} (writable : isWritable c = true) (rest : List Char) :
    unescape (withoutCodes c ++ rest) = (unescape rest).map (c :: ·) := by
  cases eight : isEight c with
  | true =>
    rw [withoutCodes, eight, if_pos rfl]
    refine unescape_cons ?_
    rintro rfl
    exact absurd eight (by decide)
  | false =>
    rw [withoutCodes, eight, if_neg Bool.false_ne_true]
    cases four : isFour c with
    | true =>
      rw [withoutFour, four, if_pos rfl]
      refine unescape_cons ?_
      rintro rfl
      exact absurd four (by decide)
    | false =>
      have shown := shown_quotedChar '"' writable
      rw [withoutFour, four, if_neg Bool.false_ne_true]
      generalize Display.quotedChar '"' c = form at shown ⊢
      cases shown with
      | escaped special =>
        refine unescape_short ?_
        rcases special with rfl | rfl <;> decide
      | short known =>
        refine unescape_short ?_
        simp only [shorts, List.mem_cons, Prod.mk.injEq, List.not_mem_nil, or_false] at known
        rcases known with ⟨rfl, rfl⟩ | ⟨rfl, rfl⟩ | ⟨rfl, rfl⟩ <;> decide
      | plain noMark noBackslash => exact unescape_cons noBackslash
      | four coded => exact absurd (coded.symm.trans four) (by decide)
      | eight coded => exact absurd (coded.symm.trans eight) (by decide)

theorem unescape_flatMap (writable : ∀ c ∈ text, isWritable c = true) :
    unescape (text.flatMap withoutCodes ++ ['"']) = .ok (text ++ ['"']) := by
  induction text with
  | nil => rfl
  | cons c text ih =>
    rw [List.flatMap_cons, List.append_assoc,
      unescape_withoutCodes (writable c List.mem_cons_self),
      ih fun d member => writable d (List.mem_cons_of_mem _ member)]
    rfl

/-- The texts that a literal gives back: every character has a form, no code by two digits and no
mark after a code is taken for another one, and the quotes at the beginning are not taken for those
of a long literal. -/
structure Survives (text : List Char) : Prop where
  writable : ∀ c ∈ text, isWritable c = true
  noCode : ¬ ['\\', 'x'] <:+: text
  noQuote : text ≠ ['"']
  noQuotes : ¬ ['"', '"'] <+: text
  four : isClear 'u' isFour text = true
  eight : isClear 'U' isEight text = true

instance : DecidablePred Survives := fun text =>
  decidable_of_iff (text.all isWritable = true ∧ ¬ ['\\', 'x'] <:+: text ∧ text ≠ ['"'] ∧
      ¬ ['"', '"'] <+: text ∧ isClear 'u' isFour text = true ∧ isClear 'U' isEight text = true)
    ⟨fun ⟨writable, noCode, noQuote, noQuotes, four, eight⟩ =>
        ⟨List.all_eq_true.1 writable, noCode, noQuote, noQuotes, four, eight⟩,
      fun survives => ⟨List.all_eq_true.2 survives.writable, survives.noCode, survives.noQuote, survives.noQuotes,
        survives.four, survives.eight⟩⟩

theorem content_quotes (noQuote : text ≠ ['"']) (noQuotes : ¬ ['"', '"'] <+: text) :
    content '"' ('"' :: (text ++ ['"'])) = text := by
  have bare (between : List Char) : inner ('"' :: (between ++ ['"'])) = between := by
    rw [inner, List.drop_one, List.tail_cons, List.dropLast_concat]
  cases text with
  | nil => rfl
  | cons c rest =>
    -- only two quotes in a row at the beginning could be those of a long literal
    have single : ¬(('"' :: (c :: rest ++ ['"']))[1]? = some '"' ∧
        (('"' :: (c :: rest ++ ['"'])).length < 3 ∨
          ('"' :: (c :: rest ++ ['"']))[2]? = some '"')) := by
      rintro ⟨first, short | second⟩
      · rw [List.length_cons, List.cons_append, List.length_cons, List.length_append] at short
        simp only [List.length_singleton] at short
        omega
      · obtain rfl : c = '"' := by simpa using first
        cases rest with
        | nil => exact noQuote rfl
        | cons d rest =>
          obtain rfl : d = '"' := by simpa using second
          exact noQuotes ⟨rest, rfl⟩
    rw [content, if_neg single, bare]

/-- A text that is not empty does not begin with a quote as it is written. -/
theorem exists_written_cons {c : Char} (writable : isWritable c = true) (text : List Char) :
    ∃ d more, written (c :: text) = d :: more ∧ d ≠ '"' := by
  have shown := shown_quotedChar '"' writable
  have noQuote := shown.head?_ne (by decide)
  obtain ⟨d, more, form⟩ := List.exists_cons_of_ne_nil shown.inhabited
  rw [form, List.head?_cons, Ne, Option.some.injEq] at noQuote
  exact ⟨d, more ++ written text, by rw [written_cons, form, List.cons_append], noQuote⟩

theorem exists_splitAtChar_written {c : Char} (writable : isWritable c = true) (text : List Char) :
    ∃ d piece pieces,
      splitAtChar '"' (written (c :: text) ++ ['"']) = (d :: piece) :: pieces := by
  obtain ⟨d, more, form, noQuote⟩ := exists_written_cons writable text
  obtain ⟨piece, pieces, later⟩ := exists_splitAtChar '"' (more ++ ['"'])
  refine ⟨d, piece, pieces, ?_⟩
  rw [form, List.cons_append, ← List.singleton_append,
    splitAtChar_append_of_not_mem (by simpa using Ne.symm noQuote) later]
  rfl

/-- A text that survives is read as it was written. -/
theorem value_written (survives : Survives text) :
    value '"' ('"' :: (written text ++ ['"'])) = .ok (String.ofList text) := by
  cases text with
  | nil => rfl
  | cons c rest =>
    have writable := survives.writable
    obtain ⟨d, piece, pieces, inside⟩ := exists_splitAtChar_written (writable c List.mem_cons_self) rest
    have closed : isClosed false false 0 ((d :: piece) :: pieces) = true :=
      isClosed_written writable [] rfl inside
    have known : knowsEscapes false
        ((splitAtChar '\\' ('"' :: (written (c :: rest) ++ ['"']))).drop 1) = true := by
      obtain ⟨first, more, whole⟩ := exists_splitAtChar '\\' (written (c :: rest) ++ ['"'])
      have known := knowsEscapes_written writable
      rw [whole] at known
      rw [← List.singleton_append, splitAtChar_append_of_not_mem (by decide) whole]
      exact known
    have four := resolveForm_flatMap (fun c member => resolves_four (writable c member))
      (by decide) (by decide) survives.four
    have eight := resolveForm_flatMap (fun c member => resolves_eight (writable c member))
      (by decide) (by decide) survives.eight
    have short : unescape ('"' :: ((c :: rest).flatMap withoutCodes ++ ['"'])) =
        .ok ('"' :: (c :: rest ++ ['"'])) := by
      rw [unescape_cons (by decide), unescape_flatMap writable]
      rfl
    rw [value, List.drop_one, List.tail_cons, inside]
    dsimp only
    rw [closed, known]
    change (do
      let text ← resolveForm ['\\', 'u'] 4 ('"' :: (written (c :: rest) ++ ['"']))
      let text ← resolveForm ['\\', 'U'] 8 text
      return String.ofList (content '"' (← unescape text))) = _
    rw [written, four]
    change (do
      let text ← resolveForm ['\\', 'U'] 8 ('"' :: ((c :: rest).flatMap withoutFour ++ ['"']))
      return String.ofList (content '"' (← unescape text))) = _
    rw [eight]
    change (do return String.ofList (content '"' (← unescape _))) = _
    rw [short]
    exact congrArg (Except.ok ∘ String.ofList) (content_quotes survives.noQuote survives.noQuotes)

end

end Literal

end Typewright.Toml
