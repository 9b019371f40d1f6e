import Mathlib.Data.List.TakeWhile
import Typewright.Proofs.Identifier.Settled
import Typewright.Proofs.Text.Lower

/-!
# How identifiers are spelled

An identifier is a character that may begin a name and then characters of a name
(`Identifier.IsIdentifier`). What counts as safe is that, possibly with a line feed behind it
(`Identifier.isSafe_iff`).

The conversion drops what a name cannot hold, some underscores, and the digits in front of the first
character that may begin a name. Everything else stays in its order, though letters may become
capitals. The text from that character on is what counts (`Identifier.fromStart`): blanking out
keeps it up to what is illegal, and every later stage of a pass shrinks it without losing its
beginning (`Identifier.Keeps`).

Main statement: the letters, digits and dollar signs of the identifier are, ignoring case, those of
the plain text without its leading digits (`Identifier.ofText_keeps_letters`).
-/

namespace Typewright.Identifier

open Text

/-- A character that may begin a name, and then characters of a name. -/
def IsIdentifier (t : List Char) : Prop :=
  ∃ c rest, t = c :: rest ∧ isStart c = true ∧ ∀ d ∈ rest, isPart d = true

/-- Letters, digits and the dollar sign. -/
def isLasting (c : Char) : Bool :=
  c.isAlphanum || c == '$'

/-- The letters, digits and dollar signs of a text, ignoring case. -/
def lasting (t : List Char) : List Char :=
  (t.filter isLasting).map Char.toLower

/-- The letters of a text, ignoring case. -/
def letters (t : List Char) : List Char :=
  (t.filter Char.isAlpha).map Char.toLower

/-- The text from the first character on that may begin a name. -/
def fromStart (t : List Char) : List Char :=
  t.dropWhile fun c => !isStart c

/-- The text without the digits in front of the first character that may begin a name. -/
def withoutLeadingDigits (t : List Char) : List Char :=
  (t.takeWhile fun c => !isStart c).filter (fun c => !c.isDigit) ++ fromStart t

/-! ## Identifiers -/

theorem isIdentifier_of_settled {t : List Char} (settled : Settled t) (inhabited : t ≠ []) :
    IsIdentifier t := by
  rcases isCapitalised_of_settled settled with none | ⟨c, rest, shape, start, _, part⟩
  · exact absurd none inhabited
  · exact ⟨c, rest, shape, start, part⟩

/-- An identifier is safe, also with a line feed behind it, and nothing else is. -/
theorem isSafe_iff {text : String} :
    isSafe text = true ↔ IsIdentifier text.toList ∨
      ∃ word, IsIdentifier word ∧ text.toList = word ++ ['\n'] := by
  rw [isSafe]
  split
  · next none =>
    rw [none]
    constructor
    · intro safe
      cases safe
    · rintro (⟨c, rest, shape, _⟩ | ⟨word, _, shape⟩)
      · cases shape
      · simp at shape
  · next c rest shape =>
    rw [shape, Bool.and_eq_true, Bool.or_eq_true, Bool.and_eq_true, List.all_eq_true,
      List.all_eq_true, beq_iff_eq]
    constructor
    · rintro ⟨start, part | ⟨last, part⟩⟩
      · exact Or.inl ⟨c, rest, rfl, start, part⟩
      · obtain ⟨front, rfl⟩ := List.getLast?_eq_some_iff.1 last
        rw [List.dropLast_concat] at part
        exact Or.inr ⟨c :: front, ⟨c, front, rfl, start, part⟩, rfl⟩
    · rintro (⟨d, word, same, start, part⟩ | ⟨word, ⟨d, front, rfl, start, part⟩, same⟩)
      · cases same
        exact ⟨start, Or.inl part⟩
      · rw [List.cons_append] at same
        obtain ⟨rfl, rfl⟩ := List.cons_eq_cons.1 same
        refine ⟨start, Or.inr ⟨List.getLast?_concat, ?_⟩⟩
        rwa [List.dropLast_concat]

/-! ## Characters -/

theorem isLasting_iff_toNat {c : Char} :
    isLasting c = true ↔ (48 ≤ c.toNat ∧ c.toNat ≤ 57) ∨ (65 ≤ c.toNat ∧ c.toNat ≤ 90) ∨
      (97 ≤ c.toNat ∧ c.toNat ≤ 122) ∨ c.toNat = 36 := by
  simp only [isLasting, Bool.or_eq_true, beq_iff_eq, Char.isAlphanum_iff_toNat, ← Char.toNat_inj]
  change (_ ∨ c.toNat = 36) ↔ _
  omega

theorem isPart_of_isLasting {c : Char} (lasts : isLasting c = true) : isPart c = true := by
  rw [isLasting_iff_toNat] at lasts
  rw [isPart_iff_toNat]
  omega

/-- What lasts is a digit or may begin a name. -/
theorem isLasting_eq_false {c : Char} (noStart : isStart c = false) (noDigit : c.isDigit = false) :
    isLasting c = false := by
  rw [Bool.eq_false_iff] at noStart noDigit ⊢
  intro lasts
  rcases isPart_iff.1 (isPart_of_isLasting lasts) with start | digit
  · exact noStart start
  · exact noDigit (Char.isDigit_iff_toNat.2 digit)

theorem isStart_of_isAlpha {c : Char} (letter : c.isAlpha = true) : isStart c = true := by
  simp [isStart, letter]

theorem isLasting_of_isAlpha {c : Char} (letter : c.isAlpha = true) : isLasting c = true := by
  rw [Char.isAlpha_iff_toNat] at letter
  rw [isLasting_iff_toNat]
  omega

/-- What is dropped on the way does not last. -/
theorem isLasting_of_dropped {c : Char} (dropped : c = '_' ∨ isBlank c = true) :
    isLasting c = false := by
  rcases dropped with rfl | blank
  · decide
  · rw [Bool.eq_false_iff]
    intro lasts
    rw [isBlank_eq_false_of_isPart (isPart_of_isLasting lasts)] at blank
    cases blank

theorem isStart_toUpper_eq (c : Char) : isStart c.toUpper = isStart c := by
  by_cases lower : c.isLower
  · have start := isStart_of_isLower lower
    rw [start, isStart_toUpper start]
  · rw [Char.toUpper_of_not_isLower lower]

theorem isLasting_toUpper (c : Char) : isLasting c.toUpper = isLasting c := by
  by_cases lower : c.isLower
  · have range := Char.isLower_iff_toNat.1 lower
    have code := Char.toNat_toUpper_of_isLower lower
    have before : isLasting c = true := isLasting_iff_toNat.2 (by omega)
    have after : isLasting c.toUpper = true := isLasting_iff_toNat.2 (by omega)
    rw [before, after]
  · rw [Char.toUpper_of_not_isLower lower]

theorem toLower_toUpper (c : Char) : c.toUpper.toLower = c.toLower := by
  by_cases lower : c.isLower
  · have range := Char.isLower_iff_toNat.1 lower
    have code := Char.toNat_toUpper_of_isLower lower
    have small : ¬ c.isUpper = true := by
      rw [Char.isUpper_iff_toNat]
      omega
    have capital : c.toUpper.isUpper = true := by
      rw [Char.isUpper_iff_toNat]
      omega
    rw [Char.toLower_of_not_isUpper small, ← Char.toNat_inj,
      Char.toNat_toLower_of_isUpper capital]
    omega
  · rw [Char.toUpper_of_not_isLower lower]

theorem isAlpha_toLower (c : Char) : c.toLower.isAlpha = c.isAlpha := by
  rcases Char.toLower_cases c with same | ⟨least, most, code⟩
  · rw [same]
  · have before : c.isAlpha = true := Char.isAlpha_iff_toNat.2 (by omega)
    have after : c.toLower.isAlpha = true := Char.isAlpha_iff_toNat.2 (by omega)
    rw [before, after]

/-! ## What lasts -/

theorem lasting_cons (c : Char) (t : List Char) :
    lasting (c :: t) = if isLasting c then c.toLower :: lasting t else lasting t := by
  rw [lasting, List.filter_cons]
  split <;> rfl

theorem lasting_append (s t : List Char) : lasting (s ++ t) = lasting s ++ lasting t := by
  rw [lasting, List.filter_append, List.map_append]
  rfl

/-- Shrinking a text keeps its letters, digits and dollar signs. -/
theorem Shrinks.lasting_eq {s t : List Char} (shrinks : Shrinks s t) : lasting s = lasting t := by
  induction shrinks with
  | nil => rfl
  | same c _ ih => rw [lasting_cons, lasting_cons, ih]
  | capital c _ ih => rw [lasting_cons, lasting_cons, ih, isLasting_toUpper, toLower_toUpper]
  | drop c dropped _ ih =>
    rw [lasting_cons, isLasting_of_dropped dropped, ih]
    rfl

theorem lasting_map_blankUnlessPart (t : List Char) :
    lasting (t.map blankUnlessPart) = lasting t := by
  induction t with
  | nil => rfl
  | cons c t ih =>
    rw [List.map_cons, lasting_cons, lasting_cons, ih]
    by_cases part : isPart c = true
    · rw [blankUnlessPart_of_isPart part]
    · have fades : isLasting c = false := by
        rw [Bool.eq_false_iff]
        exact fun lasts => part (isPart_of_isLasting lasts)
      have space : isLasting ' ' = false := by decide
      rw [blankUnlessPart, if_neg part, fades, space]
      rfl

/-- In front of the first character that may begin a name only digits last. -/
theorem lasting_withoutLeadingDigits (t : List Char) :
    lasting (withoutLeadingDigits t) = lasting (fromStart t) := by
  have none : lasting ((t.takeWhile fun c => !isStart c).filter fun c => !c.isDigit) = [] := by
    rw [lasting, List.map_eq_nil_iff, List.filter_eq_nil_iff]
    intro c member
    obtain ⟨front, noDigit⟩ := List.mem_filter.1 member
    have noStart := List.all_eq_true.1 List.all_takeWhile c front
    simp only [Bool.not_eq_true'] at noStart noDigit
    rw [isLasting_eq_false noStart noDigit]
    exact Bool.false_ne_true
  rw [withoutLeadingDigits, lasting_append, none, List.nil_append]

/-- The letters are among what lasts. -/
theorem filter_isAlpha_lasting (t : List Char) : (lasting t).filter Char.isAlpha = letters t := by
  rw [lasting, List.filter_map, List.filter_filter, letters]
  congr 1
  refine List.filter_congr fun c _ => ?_
  rw [Function.comp_apply, isAlpha_toLower]
  cases letter : c.isAlpha with
  | false => rfl
  | true => rw [isLasting_of_isAlpha letter, Bool.and_self]

/-! ## The beginning -/

theorem fromStart_cons (c : Char) (t : List Char) :
    fromStart (c :: t) = if isStart c then c :: t else fromStart t := by
  rw [fromStart, List.dropWhile_cons]
  cases isStart c <;> rfl

theorem fromStart_cons_of_isStart {c : Char} (start : isStart c = true) (t : List Char) :
    fromStart (c :: t) = c :: t := by
  rw [fromStart_cons, if_pos start]

theorem fromStart_cons_of_not {c : Char} (other : isStart c = false) (t : List Char) :
    fromStart (c :: t) = fromStart t := by
  rw [fromStart_cons, if_neg (by simp [other])]

theorem fromStart_eq_nil_iff {t : List Char} :
    fromStart t = [] ↔ ∀ c ∈ t, isStart c = false := by
  simp [fromStart, List.dropWhile_eq_nil_iff]

theorem fromStart_of_legal {t : List Char} (legal : Legal t) : fromStart t = t := by
  cases t with
  | nil => rfl
  | cons c t => exact fromStart_cons_of_isStart (legal.start c rfl) t

/-- Letters may begin a name, so all of them are there. -/
theorem letters_fromStart (t : List Char) : letters (fromStart t) = letters t := by
  induction t with
  | nil => rfl
  | cons c t ih =>
    rw [fromStart_cons]
    split
    · rfl
    · next other =>
      have noLetter : ¬ c.isAlpha = true := fun letter => other (isStart_of_isAlpha letter)
      rw [ih, letters, letters, List.filter_cons_of_neg noLetter]

theorem isStart_eq_false_of_isBlank {c : Char} (blank : isBlank c = true) :
    isStart c = false := by
  rw [Bool.eq_false_iff]
  intro start
  rw [isBlank_eq_false_of_isPart (isPart_of_isStart start)] at blank
  cases blank

theorem isStart_blankUnlessPart (c : Char) : isStart (blankUnlessPart c) = isStart c := by
  by_cases part : isPart c = true
  · rw [blankUnlessPart_of_isPart part]
  · have other : isStart c = false := by
      rw [Bool.eq_false_iff]
      exact fun start => part (isPart_of_isStart start)
    rw [blankUnlessPart, if_neg part, other]
    decide

theorem fromStart_map_blankUnlessPart (t : List Char) :
    fromStart (t.map blankUnlessPart) = (fromStart t).map blankUnlessPart := by
  induction t with
  | nil => rfl
  | cons c t ih =>
    rw [List.map_cons, fromStart_cons, fromStart_cons, isStart_blankUnlessPart, ih]
    split <;> rfl

theorem fromStart_append_of_isBlank {front : List Char} (blank : ∀ c ∈ front, isBlank c = true)
    (t : List Char) : fromStart (front ++ t) = fromStart t := by
  induction front with
  | nil => rfl
  | cons c front ih =>
    rw [List.cons_append,
      fromStart_cons_of_not (isStart_eq_false_of_isBlank (blank c List.mem_cons_self))]
    exact ih fun d member => blank d (List.mem_cons_of_mem _ member)

/-- Blanking out keeps a text from its beginning on, up to what is illegal. -/
theorem fromStart_blankIllegal (t : List Char) :
    fromStart (blankIllegal t) = (fromStart t).map blankUnlessPart := by
  have whole := List.takeWhile_append_dropWhile (p := isBlank) (l := t)
  have blank : ∀ c ∈ t.takeWhile isBlank, isBlank c = true :=
    List.all_eq_true.1 List.all_takeWhile
  have space : isStart ' ' = false := by decide
  nth_rewrite 2 [← whole]
  rw [fromStart_append_of_isBlank blank, blankIllegal]
  split
  · next shape =>
    rw [shape]
    split <;> rfl
  · next c rest shape =>
    rw [shape]
    split
    · next start =>
      have kept := blankUnlessPart_of_isPart (isPart_of_isStart start)
      rw [fromStart_cons_of_isStart start, List.map_cons, kept]
      split
      · exact fromStart_cons_of_isStart start _
      · rw [List.singleton_append, fromStart_cons_of_not space]
        exact fromStart_cons_of_isStart start _
    · next other =>
      rw [Bool.not_eq_true] at other
      rw [fromStart_cons_of_not space, fromStart_cons_of_not other, fromStart_map_blankUnlessPart]

/-! ## Passes -/

/-- A text comes from another by shrinking it from its beginning on, and if the other has a
beginning, so has the text. -/
structure Keeps (s t : List Char) : Prop where
  shrinks : Shrinks (fromStart s) (fromStart t)
  begins : fromStart s = [] → fromStart t = []

namespace Keeps

theorem refl (t : List Char) : Keeps t t :=
  ⟨Shrinks.refl _, id⟩

theorem trans {r s t : List Char} (first : Keeps r s) (second : Keeps s t) : Keeps r t :=
  ⟨first.shrinks.trans second.shrinks, second.begins ∘ first.begins⟩

/-- Both texts begin with characters that may begin a name. -/
theorem of_isStart {c d : Char} {s t : List Char} (shrinks : Shrinks (d :: s) (c :: t))
    (mine : isStart d = true) (other : isStart c = true) : Keeps (d :: s) (c :: t) := by
  refine ⟨?_, fun none => ?_⟩
  · rwa [fromStart_cons_of_isStart mine, fromStart_cons_of_isStart other]
  · rw [fromStart_cons_of_isStart mine] at none
    cases none

/-- Neither first character may begin a name. -/
theorem cons {c d : Char} {s t : List Char} (keeps : Keeps s t) (mine : isStart d = false)
    (other : isStart c = false) : Keeps (d :: s) (c :: t) := by
  constructor
  · rw [fromStart_cons_of_not mine, fromStart_cons_of_not other]
    exact keeps.shrinks
  · rw [fromStart_cons_of_not mine, fromStart_cons_of_not other]
    exact keeps.begins

theorem drop {c : Char} {s t : List Char} (keeps : Keeps s t) (other : isStart c = false) :
    Keeps s (c :: t) := by
  constructor
  · rw [fromStart_cons_of_not other]
    exact keeps.shrinks
  · rw [fromStart_cons_of_not other]
    exact keeps.begins

theorem fromStart_eq_nil_iff {s t : List Char} (keeps : Keeps s t) :
    fromStart s = [] ↔ fromStart t = [] := by
  refine ⟨keeps.begins, fun none => ?_⟩
  have shorter := keeps.shrinks.length_le
  rw [none, List.length_nil, Nat.le_zero, List.length_eq_zero_iff] at shorter
  exact shorter

end Keeps

theorem isStart_of_eq_underscore {c : Char} (mark : c = '_') : isStart c = true := by
  rw [mark]
  decide

theorem keeps_capitaliseMarked (t : List Char) : Keeps (capitaliseMarked t) t := by
  have shrinks := shrinks_capitaliseMarked t
  unfold capitaliseMarked at shrinks ⊢
  split
  · next c rest =>
    simp only at shrinks
    split
    · next lower =>
      rw [if_pos lower] at shrinks
      exact .of_isStart shrinks (isStart_of_eq_underscore rfl) (isStart_of_eq_underscore rfl)
    · exact .refl _
  · exact .refl t

/-- An underscore is dropped only in front of a letter, which may begin a name as well. -/
theorem keeps_joinSnake (t : List Char) : Keeps (joinSnake t) t := by
  fun_induction joinSnake t with
  | case1 => exact .refl _
  | case2 c => exact .refl _
  | case3 c d rest joined ih =>
    refine .of_isStart (.drop c (Or.inl joined.1) (.capital d (shrinks_joinSnake rest))) ?_
      (isStart_of_eq_underscore joined.1)
    exact isStart_toUpper (isStart_of_isLower joined.2)
  | case4 c d rest _ ih =>
    cases start : isStart c with
    | true => exact .of_isStart (.same c (shrinks_joinSnake (d :: rest))) start start
    | false => exact ih.cons start start

theorem keeps_capitaliseAfter (cls : Char → Bool) (after : Bool) (t : List Char) :
    Keeps (capitaliseAfter cls after t) t := by
  induction t generalizing after with
  | nil => exact .refl _
  | cons c t ih =>
    have shrinks := shrinks_capitaliseAfter cls after (c :: t)
    have same : isStart (if after then c.toUpper else c) = isStart c := by
      split
      · exact isStart_toUpper_eq c
      · rfl
    rw [capitaliseAfter] at shrinks ⊢
    cases start : isStart c with
    | true => exact .of_isStart shrinks (same.trans start) start
    | false => exact (ih (cls c)).cons (same.trans start) start

theorem keeps_filter (t : List Char) : Keeps (t.filter fun c => !isBlank c) t := by
  induction t with
  | nil => exact .refl _
  | cons c t ih =>
    cases blank : isBlank c with
    | true =>
      rw [List.filter_cons_of_neg (by simp [blank])]
      exact ih.drop (isStart_eq_false_of_isBlank blank)
    | false =>
      rw [List.filter_cons_of_pos (by simp [blank])]
      cases start : isStart c with
      | true => exact .of_isStart (.same c (shrinks_filter t)) start start
      | false => exact ih.cons start start

theorem keeps_capitaliseFirst (t : List Char) : Keeps (capitaliseFirst t) t := by
  cases t with
  | nil => exact .refl _
  | cons c t =>
    cases start : isStart c with
    | true =>
      exact .of_isStart (.capital c (Shrinks.refl t)) ((isStart_toUpper_eq c).trans start) start
    | false => exact (Keeps.refl t).cons ((isStart_toUpper_eq c).trans start) start

/-- A pass, from the blanked out text on. -/
theorem keeps_pass (t : List Char) : Keeps (pass t) (blankIllegal t) := by
  rw [pass]
  refine (keeps_capitaliseFirst _).trans ((keeps_filter _).trans ?_)
  refine (keeps_capitaliseAfter _ _ _).trans ((keeps_capitaliseAfter _ _ _).trans ?_)
  exact (keeps_joinSnake _).trans (keeps_capitaliseMarked _)

theorem lasting_fromStart_pass (t : List Char) :
    lasting (fromStart (pass t)) = lasting (fromStart t) := by
  rw [(keeps_pass t).shrinks.lasting_eq, fromStart_blankIllegal, lasting_map_blankUnlessPart]

theorem fromStart_pass_eq_nil_iff (t : List Char) :
    fromStart (pass t) = [] ↔ fromStart t = [] := by
  rw [(keeps_pass t).fromStart_eq_nil_iff, fromStart_blankIllegal, List.map_eq_nil_iff]

/-! ## The conversion -/

/-- However often passes are repeated, what lasts from the beginning on stays. -/
theorem fromStart_settle (fuel : Nat) (t : List Char) :
    lasting (fromStart (settle fuel t)) = lasting (fromStart t) ∧
      (fromStart (settle fuel t) = [] ↔ fromStart t = []) := by
  induction fuel generalizing t with
  | zero => exact ⟨rfl, Iff.rfl⟩
  | succ fuel ih =>
    rw [settle]
    split
    · exact ⟨rfl, Iff.rfl⟩
    · obtain ⟨lasts, begins⟩ := ih (pass t)
      exact ⟨lasts.trans (lasting_fromStart_pass t), begins.trans (fromStart_pass_eq_nil_iff t)⟩

theorem fromStart_ofText (text : String) :
    lasting (ofText text).toList = lasting (fromStart (plain text.toList)) ∧
      ((ofText text).toList = [] ↔ fromStart (plain text.toList) = []) := by
  have whole := fromStart_of_legal (settled_ofText text).toLegal
  have kept := fromStart_settle (2 * (plain text.toList).length + 1) (plain text.toList)
  rw [ofText, String.toList_ofList] at whole ⊢
  rwa [whole] at kept

/-- Leading digits are no letters, so the identifier has all letters of the plain text. -/
theorem letters_ofText (text : String) :
    letters (ofText text).toList = letters (plain text.toList) := by
  rw [← filter_isAlpha_lasting, (fromStart_ofText text).1, filter_isAlpha_lasting,
    letters_fromStart]

/-- No letter is lost: an identifier has the letters, digits and dollar signs of the plain text
without its leading digits. It is empty only if nothing in the text can begin a name, and texts with
different letters have different identifiers. -/
theorem ofText_keeps_letters :
    (∀ text, lasting (ofText text).toList = lasting (withoutLeadingDigits (plain text.toList))) ∧
    (∀ text, ofText text = "" ↔ ∀ c ∈ plain text.toList, isStart c = false) ∧
    ∀ text other, letters (plain text.toList) ≠ letters (plain other.toList) →
      ofText text ≠ ofText other := by
  refine ⟨fun text => ?_, fun text => ?_, fun text other different same => different ?_⟩
  · rw [lasting_withoutLeadingDigits, (fromStart_ofText text).1]
  · rw [← fromStart_eq_nil_iff, ← (fromStart_ofText text).2]
    exact String.toList_eq_nil_iff.symm
  · rw [← letters_ofText, ← letters_ofText, same]

/-- The digit in front, the blank and the underscore do not count, but a further letter does. -/
theorem ofText_keeps_letters_snake :
    letters (plain "2 fa_b".toList) ≠ letters (plain "fab_c".toList) ∧
      lasting (ofText "2 fa_b").toList = "fab".toList ∧ ofText "2 fa_b" ≠ "" ∧
      ofText "2 fa_b" ≠ ofText "fab_c" := by
  obtain ⟨lasts, begins, apart⟩ := ofText_keeps_letters
  have different : letters (plain "2 fa_b".toList) ≠ letters (plain "fab_c".toList) := by
    decide +kernel
  refine ⟨different, ?_, ?_, apart _ _ different⟩
  · rw [lasts]
    decide +kernel
  · rw [Ne, begins]
    intro none
    have letter : 'f' ∈ plain "2 fa_b".toList := by decide +kernel
    exact absurd (none 'f' letter) (by decide)

end Typewright.Identifier
