import Typewright.Proofs.TypeScript.Inert

/-!
# The braces of code

Which braces of a text count is a matter of its lexical grammar: a text is a row of comments,
literals, braces and other characters (`Source.Braces`). Comments end at the first line feed or the
first mark that closes them, literals at the first mark of their own that no backslash takes. What is
left open at the end of the text runs up to the end.

The grammar reads every text in exactly one way, and the places of the reader are a means to find
that reading (`Source.braces_iff`).
-/

namespace Typewright.Source

variable {place next : Place} {text rest : List Char} {mark c : Char} {offset : Nat}

/-! ## The grammar -/

/-- A brace of code and whether it opens. -/
structure Brace where
  offset : Nat
  opens : Bool
  deriving DecidableEq, Repr

/-- What can stand between the marks of a literal: a backslash takes the next character with it, and
the mark stands only behind one. -/
inductive IsInside (mark : Char) : List Char → Prop
  | nil : IsInside mark []
  | plain {c : Char} {rest : List Char} (ordinary : c ≠ '\\') (other : c ≠ mark)
      (later : IsInside mark rest) : IsInside mark (c :: rest)
  | escaped {c : Char} {rest : List Char} (later : IsInside mark rest) :
      IsInside mark ('\\' :: c :: rest)

/-- A text whose first character has a given offset, and the braces of code in it. -/
inductive Braces : Nat → List Char → List Brace → Prop
  | done (offset : Nat) : Braces offset [] []
  | opening {offset : Nat} {rest : List Char} {braces : List Brace}
      (later : Braces (offset + 1) rest braces) :
      Braces offset ('\x7b' :: rest) (⟨offset, true⟩ :: braces)
  | closing {offset : Nat} {rest : List Char} {braces : List Brace}
      (later : Braces (offset + 1) rest braces) :
      Braces offset ('\x7d' :: rest) (⟨offset, false⟩ :: braces)
  | plain {offset : Nat} {c : Char} {rest : List Char} {braces : List Brace}
      (plain : isMark c = false) (later : Braces (offset + 1) rest braces) :
      Braces offset (c :: rest) braces
  | slash {offset : Nat} {rest : List Char} {braces : List Brace}
      (noLine : rest.head? ≠ some '/') (noBlock : rest.head? ≠ some '*')
      (later : Braces (offset + 1) rest braces) : Braces offset ('/' :: rest) braces
  | lineComment {offset : Nat} {body rest : List Char} {braces : List Brace}
      (oneLine : '\n' ∉ body) (later : Braces (offset + body.length + 3) rest braces) :
      Braces offset ('/' :: '/' :: (body ++ '\n' :: rest)) braces
  | lastLine {offset : Nat} {body : List Char} (oneLine : '\n' ∉ body) :
      Braces offset ('/' :: '/' :: body) []
  | blockComment {offset : Nat} {body rest : List Char} {braces : List Brace}
      (opened : ¬ ['*', '/'] <:+: body) (later : Braces (offset + body.length + 4) rest braces) :
      Braces offset ('/' :: '*' :: (body ++ '*' :: '/' :: rest)) braces
  | openComment {offset : Nat} {body : List Char} (opened : ¬ ['*', '/'] <:+: body) :
      Braces offset ('/' :: '*' :: body) []
  | literal {offset : Nat} {mark : Char} {body rest : List Char} {braces : List Brace}
      (quotes : mark = '"' ∨ mark = '\'') (inside : IsInside mark body)
      (later : Braces (offset + body.length + 2) rest braces) :
      Braces offset (mark :: (body ++ mark :: rest)) braces
  | openLiteral {offset : Nat} {mark : Char} {body : List Char}
      (quotes : mark = '"' ∨ mark = '\'') (inside : IsInside mark body) :
      Braces offset (mark :: body) []
  | openEscape {offset : Nat} {mark : Char} {body : List Char}
      (quotes : mark = '"' ∨ mark = '\'') (inside : IsInside mark body) :
      Braces offset (mark :: (body ++ ['\\'])) []

/-! ## Every text is read in some way -/

theorem exists_first_closing (closes : ['*', '/'] <:+: text) :
    ∃ body rest, text = body ++ '*' :: '/' :: rest ∧ ¬ ['*', '/'] <:+: body := by
  induction text with
  | nil => exact absurd closes (by simp)
  | cons c text ih =>
    by_cases here : c = '*' ∧ text.head? = some '/'
    · obtain ⟨rfl, slash⟩ := here
      obtain ⟨rest, rfl⟩ := List.head?_eq_some_iff.1 slash
      exact ⟨[], rest, rfl, by simp⟩
    · rw [Text.pair_infix_cons_iff] at closes
      obtain ⟨body, rest, rfl, opened⟩ := ih (closes.resolve_left here)
      refine ⟨c :: body, rest, rfl, ?_⟩
      rw [Text.pair_infix_cons_iff, not_or]
      refine ⟨fun border => here ⟨border.1, ?_⟩, opened⟩
      obtain ⟨back, rfl⟩ := List.head?_eq_some_iff.1 border.2
      rfl

/-- What follows the mark of a literal: it is closed, or left open, perhaps within an escape. -/
theorem literal_cases (mark : Char) (text : List Char) :
    (∃ body rest, text = body ++ mark :: rest ∧ IsInside mark body) ∨ IsInside mark text ∨
      ∃ body, text = body ++ ['\\'] ∧ IsInside mark body := by
  match text with
  | [] => exact .inr (.inl .nil)
  | c :: rest =>
    by_cases ordinary : c = '\\'
    · subst ordinary
      match rest with
      | [] => exact .inr (.inr ⟨[], rfl, .nil⟩)
      | c :: rest =>
        rcases literal_cases mark rest with ⟨body, rest, rfl, inside⟩ | inside | ⟨body, rfl, inside⟩
        · exact .inl ⟨'\\' :: c :: body, rest, rfl, .escaped inside⟩
        · exact .inr (.inl (.escaped inside))
        · exact .inr (.inr ⟨'\\' :: c :: body, rfl, .escaped inside⟩)
    by_cases closes : c = mark
    · exact .inl ⟨[], rest, by rw [closes]; rfl, .nil⟩
    rcases literal_cases mark rest with ⟨body, rest, rfl, inside⟩ | inside | ⟨body, rfl, inside⟩
    · exact .inl ⟨c :: body, rest, rfl, .plain ordinary closes inside⟩
    · exact .inr (.inl (.plain ordinary closes inside))
    · exact .inr (.inr ⟨c :: body, rfl, .plain ordinary closes inside⟩)

theorem exists_braces (offset : Nat) (text : List Char) : ∃ braces, Braces offset text braces := by
  induction length : text.length using Nat.strong_induction_on generalizing offset text with
  | _ size ih =>
  subst length
  -- Whatever a lexeme ends with, the text behind it is shorter.
  have onward : ∀ (offset : Nat) (rest : List Char), rest.length < text.length →
      ∃ braces, Braces offset rest braces :=
    fun offset rest shorter => ih rest.length shorter offset rest rfl
  match text with
  | [] => exact ⟨[], .done offset⟩
  | c :: rest =>
    have later := onward (offset + 1) rest (by simp)
    cases marks : isMark c with
    | false =>
      obtain ⟨braces, later⟩ := later
      exact ⟨braces, .plain marks later⟩
    | true =>
    have mark : c = '/' ∨ (c = '"' ∨ c = '\'') ∨ c = '\x7b' ∨ c = '\x7d' := by
      simpa [isMark, or_assoc] using marks
    rcases mark with rfl | quotes | rfl | rfl
    · by_cases line : rest.head? = some '/'
      · obtain ⟨rest, rfl⟩ := List.head?_eq_some_iff.1 line
        by_cases ends : '\n' ∈ rest
        · obtain ⟨body, rest, rfl, oneLine⟩ := List.eq_append_cons_of_mem ends
          obtain ⟨braces, later⟩ := onward (offset + body.length + 3) rest
            (by simp only [List.length_cons, List.length_append]; omega)
          exact ⟨braces, .lineComment oneLine later⟩
        · exact ⟨[], .lastLine ends⟩
      by_cases block : rest.head? = some '*'
      · obtain ⟨rest, rfl⟩ := List.head?_eq_some_iff.1 block
        by_cases closes : ['*', '/'] <:+: rest
        · obtain ⟨body, rest, rfl, opened⟩ := exists_first_closing closes
          obtain ⟨braces, later⟩ := onward (offset + body.length + 4) rest
            (by simp only [List.length_cons, List.length_append]; omega)
          exact ⟨braces, .blockComment opened later⟩
        · exact ⟨[], .openComment closes⟩
      · obtain ⟨braces, later⟩ := later
        exact ⟨braces, .slash line block later⟩
    · rcases literal_cases c rest with ⟨body, rest, rfl, inside⟩ | inside | ⟨body, rfl, inside⟩
      · obtain ⟨braces, later⟩ := onward (offset + body.length + 2) rest
          (by simp only [List.length_cons, List.length_append]; omega)
        exact ⟨braces, .literal quotes inside later⟩
      · exact ⟨[], .openLiteral quotes inside⟩
      · exact ⟨[], .openEscape quotes inside⟩
    · obtain ⟨braces, later⟩ := later
      exact ⟨_, .opening later⟩
    · obtain ⟨braces, later⟩ := later
      exact ⟨_, .closing later⟩

/-! ## The reader of braces finds the reading -/

/-- The braces of code in a text that is read from a place. -/
def bracesFrom : Place → Nat → List Char → List Brace
  | _, _, [] => []
  | place, offset, c :: rest =>
    let later := bracesFrom (place.after c) (offset + 1) rest
    if place.isCode = true ∧ c = '\x7b' then ⟨offset, true⟩ :: later
    else if place.isCode = true ∧ c = '\x7d' then ⟨offset, false⟩ :: later
    else later

theorem bracesFrom_opening (code : place.isCode = true) :
    bracesFrom place offset ('\x7b' :: rest) =
      ⟨offset, true⟩ :: bracesFrom (place.after '\x7b') (offset + 1) rest := by
  rw [bracesFrom, if_pos ⟨code, rfl⟩]

theorem bracesFrom_closing (code : place.isCode = true) :
    bracesFrom place offset ('\x7d' :: rest) =
      ⟨offset, false⟩ :: bracesFrom (place.after '\x7d') (offset + 1) rest := by
  rw [bracesFrom, if_neg fun opens => absurd opens.2 (by decide), if_pos ⟨code, rfl⟩]

theorem bracesFrom_cons (inert : place.isCode = true → c ≠ '\x7b' ∧ c ≠ '\x7d') :
    bracesFrom place offset (c :: rest) = bracesFrom (place.after c) (offset + 1) rest := by
  rw [bracesFrom, if_neg fun opens => (inert opens.1).1 opens.2,
    if_neg fun closes => (inert closes.1).2 closes.2]

/-- The braces of code are found in the order of the text. -/
theorem offset_of_mem_bracesFrom (place : Place) (offset : Nat) (text : List Char) :
    (∀ brace ∈ bracesFrom place offset text, offset ≤ brace.offset) ∧
      (bracesFrom place offset text).Pairwise fun one other => one.offset < other.offset := by
  induction text generalizing place offset with
  | nil => exact ⟨by simp [bracesFrom], by simp [bracesFrom]⟩
  | cons c text ih =>
    obtain ⟨later, sorted⟩ := ih (place.after c) (offset + 1)
    have onward : ∀ brace ∈ bracesFrom (place.after c) (offset + 1) text, offset < brace.offset :=
      fun brace member => later brace member
    have first : ∀ opens : Bool,
        (∀ brace ∈ ⟨offset, opens⟩ :: bracesFrom (place.after c) (offset + 1) text,
          offset ≤ brace.offset) ∧
        (⟨offset, opens⟩ :: bracesFrom (place.after c) (offset + 1) text).Pairwise
          fun one other => one.offset < other.offset := by
      intro opens
      refine ⟨fun brace member => ?_, List.pairwise_cons.2 ⟨onward, sorted⟩⟩
      rcases List.mem_cons.1 member with rfl | member
      · exact Nat.le_refl _
      · exact Nat.le_of_lt (onward brace member)
    rw [bracesFrom]
    split
    · exact first true
    split
    · exact first false
    · exact ⟨fun brace member => Nat.le_of_lt (onward brace member), sorted⟩

/-- Text without code has no braces of code. -/
theorem Silent.bracesFrom (silent : Silent place text next) :
    bracesFrom place offset (text ++ rest) = bracesFrom next (offset + text.length) rest := by
  induction text generalizing place offset with
  | nil =>
    obtain ⟨rfl, _⟩ := silent
    rfl
  | cons c text ih =>
    obtain ⟨leads, noCode⟩ := silent
    rw [codeFrom] at noCode
    split at noCode
    · cases noCode
    · next outside =>
      rw [List.cons_append, bracesFrom_cons fun code => absurd code outside, ih ⟨leads, noCode⟩,
        List.length_cons]
      congr 1
      omega

/-- What is silent up to the end has no braces of code. -/
theorem Silent.bracesFrom_end (silent : Silent place text next) :
    Source.bracesFrom place offset text = [] := by
  have whole := @Silent.bracesFrom place next text [] offset silent
  rwa [List.append_nil] at whole

theorem silent_lineComment (oneLine : '\n' ∉ text) : Silent .lineComment text .lineComment := by
  induction text with
  | nil => exact .nil _
  | cons c text ih =>
    rw [List.mem_cons, not_or] at oneLine
    have one : Silent .lineComment [c] .lineComment := by
      have step := @silent_char .lineComment c rfl
      simpa [Place.after, Ne.symm oneLine.1] using step
    exact one.cons (ih oneLine.2)

theorem silent_closedComment (opened : ¬ ['*', '/'] <:+: text) :
    Silent .blockComment (text ++ ['*', '/']) .code := by
  have closing : Silent .star ['/'] .code := @silent_char .star '/' rfl
  rcases silent_comment opened with plain | star
  · exact plain.append ((@silent_char .blockComment '*' rfl).cons closing)
  · exact star.append ((@silent_char .star '*' rfl).cons closing)

theorem IsInside.silent (inside : IsInside mark text) :
    Silent (.literal mark) text (.literal mark) := by
  induction inside with
  | nil => exact .nil _
  | @plain c rest ordinary other _ ih =>
    have one : Silent (.literal mark) [c] (.literal mark) := by
      have step := @silent_char (.literal mark) c rfl
      simpa [Place.after, ordinary, other] using step
    exact one.cons ih
  | @escaped c rest _ ih =>
    exact (@silent_char (.literal mark) '\\' rfl).cons ((@silent_char (.escape mark) c rfl).cons ih)

/-- A slash before anything but another slash or an asterisk is a character like others. -/
theorem bracesFrom_slash (noLine : rest.head? ≠ some '/') (noBlock : rest.head? ≠ some '*') :
    bracesFrom .slash offset rest = bracesFrom .code offset rest := by
  cases rest with
  | nil => rfl
  | cons c rest =>
    have line : c ≠ '/' := fun same => noLine (by rw [same, List.head?_cons])
    have block : c ≠ '*' := fun same => noBlock (by rw [same, List.head?_cons])
    simp only [bracesFrom, Place.isCode, Place.after, if_neg line, if_neg block]

theorem Braces.eq_bracesFrom {braces : List Brace} (reads : Braces offset text braces) :
    braces = bracesFrom .code offset text := by
  have quoted : ∀ {mark : Char}, mark = '"' ∨ mark = '\'' → ∀ (offset : Nat) (rest : List Char),
      bracesFrom .code offset (mark :: rest) = bracesFrom (.literal mark) (offset + 1) rest := by
    intro mark quotes offset rest
    rcases quotes with rfl | rfl <;> rfl
  induction reads with
  | done => rfl
  | opening _ ih => rw [ih]; rfl
  | closing _ ih => rw [ih]; rfl
  | @plain offset c rest braces plain _ ih =>
    simp only [isMark, Bool.or_eq_false_iff, beq_eq_false_iff_ne] at plain
    obtain ⟨⟨⟨⟨slash, double⟩, single⟩, opening⟩, closing⟩ := plain
    rw [ih, bracesFrom_cons fun _ => ⟨opening, closing⟩]
    simp [Place.after, Place.afterCode, slash, double, single]
  | slash noLine noBlock _ ih => rw [ih, ← bracesFrom_slash noLine noBlock]; rfl
  | @lineComment offset body rest braces oneLine _ ih =>
    have silent : Silent .lineComment (body ++ ['\n']) .code :=
      (silent_lineComment oneLine).append (@silent_char .lineComment '\n' rfl)
    have passed := @Silent.bracesFrom _ _ _ rest (offset + 2) silent
    rw [List.append_assoc, List.singleton_append, List.length_append, List.length_singleton] at passed
    rw [ih]
    exact (passed.trans (by congr 1; omega)).symm
  | lastLine oneLine => exact ((silent_lineComment oneLine).bracesFrom_end).symm
  | @blockComment offset body rest braces opened _ ih =>
    have passed := @Silent.bracesFrom _ _ _ rest (offset + 2) (silent_closedComment opened)
    rw [List.append_assoc, List.length_append] at passed
    rw [ih]
    exact (passed.trans (by congr 1; simp; omega)).symm
  | openComment opened =>
    rcases silent_comment opened with plain | star
    · exact plain.bracesFrom_end.symm
    · exact star.bracesFrom_end.symm
  | @literal offset mark body rest braces quotes inside _ ih =>
    have closing : Silent (.literal mark) [mark] .code := by
      rcases quotes with rfl | rfl <;> exact silent_char rfl
    have passed := @Silent.bracesFrom _ _ _ rest (offset + 1) (inside.silent.append closing)
    rw [List.append_assoc, List.singleton_append, List.length_append, List.length_singleton] at passed
    rw [ih, quoted quotes, passed]
    congr 1
    omega
  | openLiteral quotes inside => rw [quoted quotes, inside.silent.bracesFrom_end]
  | @openEscape offset mark body quotes inside =>
    have escaping := inside.silent.append (@silent_char (.literal mark) '\\' rfl)
    rw [quoted quotes, escaping.bracesFrom_end]

/-- A text has exactly the braces of code that are read from code on. -/
theorem braces_iff {braces : List Brace} :
    Braces offset text braces ↔ braces = bracesFrom .code offset text := by
  constructor
  · exact Braces.eq_bracesFrom
  · intro same
    obtain ⟨others, reads⟩ := exists_braces offset text
    rwa [same, ← reads.eq_bracesFrom]

end Typewright.Source
