import Typewright.Proofs.Text.Characters
import Typewright.Proofs.Toml.Literal

/-!
# Lines of a written table

The pass that settles what a line is goes over a written table without a change: names, quotes and
the characters between them are gone over one by one (`Layout.Crosses`), and at the end of an entry
the pass stands as it did at its beginning. So the lines of the table are its entries
(`Layout.lines_tableText`). What has to be known about the text before a quote is whether it ends in
an odd number of backslashes, and that it has other characters too.
-/

namespace Typewright.Toml

open Text

/-! ## Tables of texts -/

/-- Characters of a bare name. -/
def isBare (c : Char) : Bool :=
  c.isAlphanum || c == '_' || c == '-'

section

variable {c d : Char}

theorem range_of_isBare (bare : isBare c = true) : 45 ≤ c.toNat ∧ c.toNat < 128 := by
  simp only [isBare, Bool.or_eq_true, beq_iff_eq] at bare
  rcases bare with (letter | rfl) | rfl
  · have range := Char.isAlphanum_iff_toNat.1 letter
    omega
  all_goals decide

theorem isBlank_of_isBare (bare : isBare c = true) : isBlank c = false := by
  have range := range_of_isBare bare
  simp [isBlank]
  omega

theorem ne_of_isBare (bare : isBare c = true) (other : isBare d = false) : c ≠ d := by
  rintro rfl
  rw [bare] at other
  cases other

end

/-- Names that are written without quotes. -/
structure IsBareName (name : String) : Prop where
  inhabited : name.toList ≠ []
  bare : ∀ c ∈ name.toList, isBare c = true

/-- An entry of a bare name and a text, as a line without its end. -/
def entryLine (name : String) (text : String) : List Char :=
  name.toList ++ (" = \"".toList ++ (written text.toList ++ ['"']))

/-- The text of a table of texts. -/
def tableText (entries : List (String × String)) : List Char :=
  entries.flatMap fun e => entryLine e.1 e.2 ++ ['\n']

namespace Layout

/-! ## Going over a text -/

/-- A state of the pass with the given characters. -/
def across (s : Layout) (chars : List Char) : Layout :=
  { s with chars := chars.toArray }

/-- The pass goes from one state to another over a text that stands after `before`. -/
def Crosses (before : List Char) (s : Layout) (text : List Char) (s' : Layout) : Prop :=
  ∀ after count,
    run (s.across (before ++ (text ++ after))) before.length (text.length + count) =
      run (s'.across (before ++ (text ++ after))) (before ++ text).length count

section

variable {before text more : List Char} {s s' s'' : Layout} {c : Char}

theorem Crosses.nil (before : List Char) (s : Layout) : Crosses before s [] s := by
  intro after count
  rw [List.append_nil, List.length_nil, Nat.zero_add]

theorem Crosses.append (first : Crosses before s text s')
    (second : Crosses (before ++ text) s' more s'') : Crosses before s (text ++ more) s'' := by
  intro after count
  have whole := first (more ++ after) (more.length + count)
  have rest := second after count
  rw [List.append_assoc, List.append_assoc] at rest
  rw [List.append_assoc, List.length_append, Nat.add_assoc, whole, rest]

/-- The pass goes over a character by its step. -/
theorem Crosses.char (step : ∀ after,
    Layout.step (s.across (before ++ c :: after)) before.length c =
      .ok (s'.across (before ++ c :: after), false)) :
    Crosses before s [c] s' := by
  intro after count
  have here : (s.across (before ++ c :: after)).chars[before.length]? = some c := by simp [across]
  rw [List.length_singleton, Nat.add_comm, run, List.singleton_append, here]
  dsimp only
  rw [step after, List.length_append]
  rfl

end

/-! ## Counting back -/

theorem charAt?_across (s : Layout) (before : List Char) (c : Char) (after : List Char) :
    (s.across (before ++ c :: after)).charAt? before.length = some c := by
  rw [charAt?, if_neg (by omega), Int.toNat_natCast]
  simp [across]

/-- Counting back a character stops at another one. -/
theorem countBefore_across (s : Layout) (back after : List Char) (c : Char) (limit : Nat)
    (stops : (back.takeWhile (· == c)).length < back.length)
    (enough : (back.takeWhile (· == c)).length ≤ limit) :
    (s.across (back.reverse ++ after)).countBefore c back.length limit =
      (back.takeWhile (· == c)).length := by
  induction limit generalizing back after with
  | zero => rw [countBefore, Nat.le_zero.1 enough]
  | succ limit ih =>
    cases back with
    | nil => exact absurd stops (by simp)
    | cons d back =>
      have place : ((d :: back).length : Int) - 1 = back.length := by
        rw [List.length_cons]
        omega
      have last := charAt?_across s back.reverse d after
      rw [List.length_reverse] at last
      rw [countBefore, place, List.reverse_cons, List.append_assoc, List.singleton_append, last]
      by_cases same : d = c
      · have counted : (d :: back).takeWhile (· == c) = d :: back.takeWhile (· == c) :=
          List.takeWhile_cons_of_pos (by simpa using same)
        rw [counted, List.length_cons] at stops enough ⊢
        rw [if_pos (congrArg some same), ih _ _ (by simpa using stops) (by omega), Nat.add_comm]
      · rw [if_neg fun both => same (Option.some.inj both),
          List.takeWhile_cons_of_neg (by simpa using same)]
        rfl

/-- A place is escaped if the text before it, which does not only consist of backslashes, ends in an
odd number of them. -/
theorem isEscaped_across (s : Layout) {before : List Char} (after : List Char)
    (other : ∃ c ∈ before, c ≠ '\\') :
    (s.across (before ++ after)).isEscaped before.length = Literal.endsOpen before := by
  have stops : (before.reverse.takeWhile (· == '\\')).length < before.reverse.length := by
    refine Nat.lt_of_le_of_ne (List.takeWhile_prefix _).length_le fun same => ?_
    have whole := (List.takeWhile_prefix (· == '\\')).eq_of_length same
    obtain ⟨c, member, noBackslash⟩ := other
    rw [← List.mem_reverse, ← whole] at member
    exact noBackslash (by simpa using List.mem_takeWhile_imp member)
  have size : (s.across (before ++ after)).chars.size = before.length + after.length := by
    simp [across]
  have counted := countBefore_across s _ after _ (before.length + after.length) stops
    (by rw [List.length_reverse] at stops; omega)
  rw [List.reverse_reverse, List.length_reverse] at counted
  rw [isEscaped, size, counted, Literal.endsOpen]

/-! ## The states on a line -/

/-- Inside a bare key. -/
def inKey : Layout :=
  { chars := #[], lineStart := false, key := .bare }

/-- Between a key and its equals sign. -/
def afterKey : Layout :=
  { chars := #[], lineStart := false, key := .after }

/-- Outside of literals after an equals sign. -/
def inValue : Layout :=
  { chars := #[], lineStart := false }

/-- Inside a literal between double quotes. -/
def inLiteral : Layout :=
  { chars := #[], lineStart := false, quote := some '"' }

/-- At the beginning of a line. -/
def atStart : Layout :=
  { chars := #[] }

/-! ## Quotes -/

theorem quoteChar_of_ne {l : Layout} {c : Char} (inside : l.quote = some '"') (noQuote : c ≠ '"')
    (index : Nat) : l.quoteChar index c = l := by
  rw [quoteChar]
  dsimp only
  rw [if_neg fun both => both.2 inside, if_neg fun both => noQuote both.1]

theorem bracketChar_of_isSome {l : Layout} (inside : l.quote.isSome = true) (index : Nat)
    (c : Char) : l.bracketChar index c = l := by
  rw [bracketChar, if_pos inside]

section

variable {s : Layout} {before front : List Char} {d : Char} (double : s.quote ≠ some '\'')
  (other : d ≠ '"') (after : List Char)

include double other

/-- A double quote with another character before it is passed over where it is escaped, and begins or
ends a literal where it is not. -/
theorem quoteChar_across (whole : before = front ++ [d]) (stops : ∃ c ∈ before, c ≠ '\\') :
    (s.across (before ++ '"' :: after)).quoteChar before.length '"' =
      if Literal.endsOpen before then s.across (before ++ '"' :: after)
      else (s.across (before ++ '"' :: after)).toggleQuote '"' := by
  have count : (s.across (before ++ '"' :: after)).countBefore '"' before.length 2 = 0 := by
    have counted := countBefore_across s (d :: front.reverse) ('"' :: after) '"' 2
    rw [List.takeWhile_cons_of_neg (by simpa using other)] at counted
    rw [whole]
    simpa using counted
  rw [quoteChar, count]
  dsimp only
  rw [if_neg fun both => absurd both.1 (by decide), if_pos ⟨rfl, double⟩, Int.natCast_zero,
    Int.sub_zero, isEscaped_across s _ stops, decide_eq_true (by decide : (0 : Nat) ≠ 1),
    Bool.true_and, if_neg (by decide : ¬(0 : Nat) = 2)]

/-- A double quote after a single one begins or ends a literal. -/
theorem quoteChar_second (whole : before = front ++ [d, '"']) :
    (s.across (before ++ '"' :: after)).quoteChar before.length '"' =
      (s.across (before ++ '"' :: after)).toggleQuote '"' := by
  have count : (s.across (before ++ '"' :: after)).countBefore '"' before.length 2 = 1 := by
    have counted := countBefore_across s ('"' :: d :: front.reverse) ('"' :: after) '"' 2
    rw [List.takeWhile_cons_of_pos (by decide), List.takeWhile_cons_of_neg (by simpa using other)]
      at counted
    rw [whole]
    simpa [Int.add_assoc] using counted
  rw [quoteChar, count]
  dsimp only
  rw [if_neg fun both => absurd both.1 (by decide), if_pos ⟨rfl, double⟩,
    decide_eq_false (by decide : ¬(1 : Nat) ≠ 1), Bool.false_and, if_neg Bool.false_ne_true,
    if_neg (by decide : ¬(1 : Nat) = 2)]

end

/-! ## Steps -/

section

variable (before : List Char) {c d : Char}

theorem crosses_first (bare : isBare c = true) : Crosses before atStart [c] inKey := by
  refine .char fun after => ?_
  have ne (d : Char) (other : isBare d = false) : c ≠ d := ne_of_isBare bare other
  have quote (l : Layout) (index : Nat) : l.quoteChar index c = l := by
    rw [quoteChar]
    dsimp only
    rw [if_neg fun both => ne '\'' (by decide) both.1, if_neg fun both => ne '"' (by decide) both.1]
  have bracket (l : Layout) (index : Nat) : l.bracketChar index c = l := by
    rw [bracketChar, if_neg (c := c = '[' ∧ _) fun both => ne '[' (by decide) both.1,
      if_neg (ne ']' (by decide)), ite_self]
  rw [step, if_neg (fun none => none rfl)]
  dsimp only
  rw [quote, if_neg fun both => ne '#' (by decide) both.1, bracket, if_neg (ne '\n' (by decide)),
    if_pos ⟨rfl, ne ' ' (by decide), ne '\t' (by decide)⟩, firstChar]
  dsimp only
  rw [if_neg fun either => either.elim Bool.false_ne_true Bool.false_ne_true,
    if_neg (ne '=' (by decide))]
  rfl

theorem crosses_bare (bare : isBare c = true) : Crosses before inKey [c] inKey := by
  refine .char fun after => ?_
  have ne (d : Char) (other : isBare d = false) : c ≠ d := ne_of_isBare bare other
  have word : (isWord c || c == '-') = true := by
    have range := range_of_isBare bare
    rw [isWord, if_pos (by omega)]
    exact bare
  rw [step, if_pos (fun same => by cases same), keyChar, if_neg (ne '\n' (by decide))]
  change Except.map _ (if isBlank c then _ else if c = '.' then _ else if isWord c || c == '-' then
    Except.ok (inKey.across _) else _) = _
  rw [isBlank_of_isBare bare, if_neg Bool.false_ne_true, if_neg (ne '.' (by decide)), if_pos word]
  rfl

theorem crosses_blank : Crosses before inKey [' '] afterKey :=
  .char fun _ => rfl

theorem crosses_equals : Crosses before afterKey ['='] inValue :=
  .char fun _ => rfl

theorem crosses_space : Crosses before inValue [' '] inValue :=
  .char fun _ => rfl

theorem crosses_lineFeed : Crosses before inValue ['\n'] atStart :=
  .char fun _ => rfl

/-- A literal begins after a space. -/
theorem crosses_opening : Crosses (before ++ [' ']) inValue ['"'] inLiteral := by
  refine .char fun after => ?_
  have quote := quoteChar_across (s := inValue) (by decide) (by decide : ' ' ≠ '"') after
    (rfl : before ++ [' '] = before ++ [' ']) ⟨' ', by simp, by decide⟩
  rw [Literal.endsOpen_append_singleton, if_neg (by decide : ' ' ≠ '\\'),
    if_neg Bool.false_ne_true] at quote
  rw [step, if_neg (fun none => none rfl), quote]
  rfl

/-- Most characters mean nothing inside a literal. -/
theorem crosses_plain (noQuote : c ≠ '"') (noFeed : c ≠ '\n') :
    Crosses before inLiteral [c] inLiteral := by
  refine .char fun after => ?_
  rw [step, if_neg (fun none => none rfl)]
  dsimp only
  rw [quoteChar_of_ne rfl noQuote, if_neg fun both => Bool.false_ne_true both.2.1,
    bracketChar_of_isSome rfl, if_neg noFeed, if_neg fun both => Bool.false_ne_true both.1]

end

/-! ## Entries -/

section

variable {before name text : List Char}

theorem crosses_bares (bare : ∀ c ∈ name, isBare c = true) : Crosses before inKey name inKey := by
  induction name generalizing before with
  | nil => exact .nil _ _
  | cons c name ih =>
    exact (crosses_bare before (bare c List.mem_cons_self)).append
      (ih fun d member => bare d (List.mem_cons_of_mem _ member))

theorem crosses_name (inhabited : name ≠ []) (bare : ∀ c ∈ name, isBare c = true) :
    Crosses before atStart name inKey := by
  obtain ⟨c, rest, rfl⟩ := List.exists_cons_of_ne_nil inhabited
  exact (crosses_first before (bare c List.mem_cons_self)).append
    (crosses_bares fun d member => bare d (List.mem_cons_of_mem _ member))

theorem crosses_plains (plain : ∀ c ∈ text, c ≠ '"' ∧ c ≠ '\n') :
    Crosses before inLiteral text inLiteral := by
  induction text generalizing before with
  | nil => exact .nil _ _
  | cons c text ih =>
    obtain ⟨noQuote, noFeed⟩ := plain c List.mem_cons_self
    exact (crosses_plain before noQuote noFeed).append
      (ih fun d member => plain d (List.mem_cons_of_mem _ member))

/-- A quote after an odd number of backslashes means nothing inside a literal. -/
theorem crosses_escapedQuote (even : Literal.endsOpen before = false)
    (stops : ∃ c ∈ before, c ≠ '\\') : Crosses before inLiteral ['\\', '"'] inLiteral := by
  refine (crosses_plain before (c := '\\') (by decide) (by decide)).append (.char fun after => ?_)
  obtain ⟨c, member, other⟩ := stops
  have quote := quoteChar_across (s := inLiteral) (by decide) (by decide : '\\' ≠ '"') after
    (rfl : before ++ ['\\'] = before ++ ['\\']) ⟨c, List.mem_append_left _ member, other⟩
  rw [Literal.endsOpen_append_singleton, if_pos rfl, even, Bool.not_false, if_pos rfl] at quote
  rw [step, if_neg (fun none => none rfl), quote]
  rfl

/-- The text of a literal is passed over. -/
theorem crosses_written (writable : ∀ c ∈ text, isWritable c = true)
    (even : Literal.endsOpen before = false) (stops : ∃ c ∈ before, c ≠ '\\') :
    Crosses before inLiteral (written text) inLiteral := by
  induction text generalizing before with
  | nil => exact .nil _ _
  | cons c text ih =>
    have here := writable c List.mem_cons_self
    have shown := shown_quotedChar '"' here
    obtain ⟨d, member, other⟩ := stops
    rw [written_cons]
    refine Crosses.append ?_ (ih (fun d member => writable d (List.mem_cons_of_mem _ member))
      (Literal.endsOpen_append_form (Literal.written_passes here) even)
      ⟨d, List.mem_append_left _ member, other⟩)
    by_cases quote : c = '"'
    · have form : Display.quotedChar '"' c = ['\\', '"'] := by
        rw [quote]
        decide
      rw [form]
      exact crosses_escapedQuote even ⟨d, member, other⟩
    · exact crosses_plains fun e inside =>
        ⟨ne_of_mem_of_not_mem inside (shown.noQuote quote),
          by
            rintro rfl
            exact absurd (Shown.visible shown (by decide) _ inside) (by decide)⟩

/-- What a written text ends in: nothing, an escaped quote, or another character. -/
theorem written_ends (writable : ∀ c ∈ text, isWritable c = true) :
    written text = [] ∨ (∃ front, written text = front ++ ['\\', '"']) ∨
      ∃ front d, written text = front ++ [d] ∧ d ≠ '"' := by
  rcases List.eq_nil_or_concat text with rfl | ⟨front, c, rfl⟩
  · exact Or.inl rfl
  · have shown := shown_quotedChar '"' (writable c (by simp))
    have whole : written (front ++ [c]) = written front ++ Display.quotedChar '"' c := by
      rw [written, List.flatMap_append, List.flatMap_singleton]
      rfl
    right
    rw [List.concat_eq_append, whole]
    by_cases quote : c = '"'
    · left
      refine ⟨written front, congrArg _ ?_⟩
      rw [quote]
      decide
    · right
      rw [← List.dropLast_append_getLast shown.inhabited, ← List.append_assoc]
      exact ⟨_, _, rfl, ne_of_mem_of_not_mem (List.getLast_mem _) (shown.noQuote quote)⟩

theorem endsOpen_append_written (writable : ∀ c ∈ text, isWritable c = true)
    (even : Literal.endsOpen before = false) :
    Literal.endsOpen (before ++ written text) = false := by
  induction text generalizing before with
  | nil => rwa [written, List.flatMap_nil, List.append_nil]
  | cons c text ih =>
    rw [written_cons, ← List.append_assoc]
    exact ih (fun d member => writable d (List.mem_cons_of_mem _ member))
      (Literal.endsOpen_append_form (Literal.written_passes (writable c List.mem_cons_self)) even)

/-- The quote after the text of a literal ends it. -/
theorem crosses_closing (writable : ∀ c ∈ text, isWritable c = true) :
    Crosses (before ++ [' ', '"'] ++ written text) inLiteral ['"'] inValue := by
  refine .char fun after => ?_
  have quote : (inLiteral.across (before ++ [' ', '"'] ++ written text ++ '"' :: after)).quoteChar
      (before ++ [' ', '"'] ++ written text).length '"' =
        (inLiteral.across (before ++ [' ', '"'] ++ written text ++ '"' :: after)).toggleQuote '"' := by
    rcases written_ends writable with empty | ⟨front, quoted⟩ | ⟨front, d, plain, other⟩
    · exact quoteChar_second (by decide) (by decide : ' ' ≠ '"') after
        (by rw [empty, List.append_nil])
    · exact quoteChar_second (by decide) (by decide : '\\' ≠ '"') after
        (by rw [quoted, ← List.append_assoc])
    · have even : Literal.endsOpen (before ++ [' ', '"'] ++ written text) = false := by
        refine endsOpen_append_written writable ?_
        exact Literal.endsOpen_append_of_not_mem _ (by decide) (by decide)
      rw [quoteChar_across (by decide) other after (by rw [plain, ← List.append_assoc])
        ⟨' ', by simp, by decide⟩, even, if_neg Bool.false_ne_true]
  rw [step, if_neg (fun none => none rfl), quote]
  rfl

/-- The pass goes over an entry and its end from one line to the next. -/
theorem crosses_entryLine {name text : String} (isName : IsBareName name)
    (writable : ∀ c ∈ text.toList, isWritable c = true) :
    Crosses before atStart (entryLine name text ++ ['\n']) atStart := by
  have parts : entryLine name text ++ ['\n'] = name.toList ++ ([' '] ++ (['='] ++ ([' '] ++
      (['"'] ++ (written text.toList ++ (['"'] ++ ['\n'])))))) := by
    simp [entryLine]
  have blank : Literal.endsOpen (before ++ name.toList ++ [' '] ++ ['='] ++ [' '] ++ ['"']) = false :=
    Literal.endsOpen_append_of_not_mem _ (by decide) (by decide)
  have closing : Crosses (before ++ name.toList ++ [' '] ++ ['='] ++ [' ', '"'] ++
      written text.toList) inLiteral ['"'] inValue := crosses_closing writable
  rw [parts]
  refine (crosses_name isName.inhabited isName.bare).append ((crosses_blank _).append ((crosses_equals _).append
    ((crosses_space _).append ((crosses_opening _).append
      ((crosses_written writable blank ⟨'"', by simp, by decide⟩).append
        (Crosses.append ?_ (crosses_lineFeed _)))))))
  rwa [List.append_assoc _ [' '] ['"']]

theorem crosses_tableText (before : List Char) {entries : List (String × String)}
    (names : ∀ e ∈ entries, IsBareName e.1)
    (writable : ∀ e ∈ entries, ∀ c ∈ e.2.toList, isWritable c = true) :
    Crosses before atStart (tableText entries) atStart := by
  induction entries generalizing before with
  | nil => exact .nil _ _
  | cons e entries ih =>
    rw [tableText, List.flatMap_cons]
    exact (crosses_entryLine (names e List.mem_cons_self) (writable e List.mem_cons_self)).append
      (ih _ (fun f member => names f (List.mem_cons_of_mem _ member))
        fun f member => writable f (List.mem_cons_of_mem _ member))

theorem written_visible (writable : ∀ c ∈ text, isWritable c = true) :
    ∀ e ∈ written text, 32 ≤ e.toNat := by
  intro e member
  obtain ⟨c, inside, inForm⟩ := List.mem_flatMap.1 member
  exact (shown_quotedChar '"' (writable c inside)).visible (by decide) e inForm

/-- No entry has a control character in it. -/
theorem entryLine_visible {name text : String} (isName : IsBareName name)
    (writable : ∀ c ∈ text.toList, isWritable c = true) :
    ∀ e ∈ entryLine name text, 32 ≤ e.toNat := by
  have around : " = \"".toList.all (fun e => decide (32 ≤ e.toNat)) = true := by decide
  intro e member
  rcases List.mem_append.1 member with inName | member
  · have range := range_of_isBare (isName.bare e inName)
    omega
  rcases List.mem_append.1 member with between | member
  · exact of_decide_eq_true (List.all_eq_true.1 around e between)
  rcases List.mem_append.1 member with inText | quote
  · exact written_visible writable e inText
  · rw [List.mem_singleton.1 quote]
    decide

/-- The lines of a table of texts are its entries, and an empty one at the end. -/
theorem lines_tableText {entries : List (String × String)} (names : ∀ e ∈ entries, IsBareName e.1)
    (writable : ∀ e ∈ entries, ∀ c ∈ e.2.toList, isWritable c = true) :
    lines (tableText entries) = .ok (entries.map (fun e => entryLine e.1 e.2) ++ [[]]) := by
  have crosses := crosses_tableText [] names writable [] 0
  rw [List.append_nil, List.nil_append, Nat.add_zero, List.length_nil] at crosses
  have split : splitAtChar '\n' (tableText entries) =
      entries.map (fun e => entryLine e.1 e.2) ++ [[]] := by
    have absent : ∀ piece ∈ entries.map (fun e => entryLine e.1 e.2), '\n' ∉ piece := by
      intro piece member
      obtain ⟨e, inside, rfl⟩ := List.mem_map.1 member
      intro feed
      exact absurd (entryLine_visible (names e inside) (writable e inside) _ feed) (by decide)
    have pieces := splitAtChar_flatMap absent
    rwa [List.flatMap_map] at pieces
  rw [lines]
  change (run (atStart.across _) 0 _ >>= _) = _
  rw [crosses]
  exact congrArg Except.ok split

end

end Layout

end Typewright.Toml
