import Typewright.Proofs.Text.Hexadecimal
import Typewright.Proofs.Text.Search
import Typewright.Toml.Writer

/-!
# Texts written as literals

A text is written character by character (`Toml.Shown` lists the forms of a character) and stands
between double quotes, whichever quotes it is displayed in (`Toml.Write.literal_eq`). What has no
place in a literal is left out here: a character that would be written by two digits, and a backslash
with an `x` after it.
-/

namespace Typewright.Toml

open Text

/-! ## Pieces between marks -/

/-- Pieces with a character in front of the first one. -/
def onto (c : Char) : List (List Char) → List (List Char)
  | [] => [[c]]
  | piece :: pieces => (c :: piece) :: pieces

/-- The pieces of a text between the occurrences of the mark `a b`. -/
def pairPieces (a b : Char) : List Char → List (List Char)
  | [] => [[]]
  | [c] => [[c]]
  | c :: d :: rest =>
    if c = a ∧ d = b then [] :: pairPieces a b rest else onto c (pairPieces a b (d :: rest))

section

variable {a b c : Char} {piece rest : List Char} {pieces : List (List Char)}

theorem pairPieces_mark (a b : Char) (rest : List Char) :
    pairPieces a b (a :: b :: rest) = [] :: pairPieces a b rest := by
  rw [pairPieces, if_pos ⟨rfl, rfl⟩]

theorem pairPieces_cons (apart : c = a → rest.head? ≠ some b) :
    pairPieces a b (c :: rest) = onto c (pairPieces a b rest) := by
  cases rest with
  | nil => rfl
  | cons d rest =>
    have other : ¬(c = a ∧ d = b) := fun ⟨first, second⟩ => apart first (congrArg some second)
    rw [pairPieces, if_neg other]

theorem exists_pairPieces (a b : Char) (text : List Char) :
    ∃ piece pieces, pairPieces a b text = piece :: pieces := by
  cases text with
  | nil => exact ⟨_, _, rfl⟩
  | cons c rest =>
    by_cases mark : c = a ∧ rest.head? = some b
    · obtain ⟨rfl, next⟩ := mark
      obtain ⟨rest, rfl⟩ := List.head?_eq_some_iff.1 next
      exact ⟨_, _, pairPieces_mark c b rest⟩
    · rw [pairPieces_cons fun same next => mark ⟨same, next⟩]
      cases pairPieces a b rest <;> exact ⟨_, _, rfl⟩

/-- A text without the first half of the mark stays in one piece. -/
theorem pairPieces_append {front : List Char} (absent : a ∉ front)
    (given : pairPieces a b rest = piece :: pieces) :
    pairPieces a b (front ++ rest) = (front ++ piece) :: pieces := by
  induction front with
  | nil => exact given
  | cons c front ih =>
    rw [List.mem_cons, not_or] at absent
    rw [List.cons_append, pairPieces_cons fun same => absurd same.symm absent.1, ih absent.2]
    rfl

theorem find?_pair_cons_of_ne (apart : c = a → rest.head? ≠ some b) :
    find? [a, b] (c :: rest) = (find? [a, b] rest).map (· + 1) := by
  have differs : [a, b].isPrefixOf (c :: rest) = false := by
    rw [Bool.eq_false_iff, Ne, List.isPrefixOf_iff_prefix, List.cons_prefix_cons]
    rintro ⟨same, next⟩
    cases rest with
    | nil => exact absurd next (by simp)
    | cons d rest =>
      rw [List.cons_prefix_cons] at next
      exact apart same.symm (congrArg some next.1.symm)
  rw [find?, differs]
  rfl

/-- With enough fuel the pieces are all pieces. -/
theorem splitAtText_pair {text : List Char} (fuel : Nat) (enough : text.length ≤ fuel) :
    Literal.splitAtText [a, b] fuel text = pairPieces a b text := by
  induction text using pairPieces.induct a b generalizing fuel with
  | case1 =>
    cases fuel <;> rfl
  | case2 c =>
    cases fuel with
    | zero => rfl
    | succ fuel =>
      rw [Literal.splitAtText, cut?, find?_pair_cons_of_ne (by simp)]
      rfl
  | case3 c d rest mark ih =>
    obtain ⟨rfl, rfl⟩ := mark
    cases fuel with
    | zero => exact absurd enough (by simp)
    | succ fuel =>
      have here : find? [c, d] (c :: d :: rest) = some 0 := by
        rw [find?, if_pos (by simp)]
      rw [List.length_cons, List.length_cons] at enough
      rw [pairPieces_mark, Literal.splitAtText, cut?, here, ← ih fuel (by omega)]
      rfl
  | case4 c d rest other ih =>
    cases fuel with
    | zero => exact absurd enough (by simp)
    | succ fuel =>
      have apart : c = a → (d :: rest).head? ≠ some b :=
        fun first second => other ⟨first, Option.some.inj second⟩
      rw [List.length_cons] at enough
      rw [pairPieces_cons apart, ← ih (fuel + 1) (by omega), Literal.splitAtText,
        Literal.splitAtText, cut?, cut?, find?_pair_cons_of_ne apart]
      cases find? [a, b] (d :: rest) with
      | none => rfl
      | some offset =>
        simp only [Option.map_some, onto, Nat.add_right_comm, List.take_succ_cons,
          List.drop_succ_cons]

end

/-! ## Characters as they are written -/

/-- Whether a character is written by a code of four digits. -/
def isFour (c : Char) : Bool :=
  !isPrintable c && (0x100 ≤ c.toNat && c.toNat < 0x10000)

/-- Whether a character is written by a code of eight digits. -/
def isEight (c : Char) : Bool :=
  !isPrintable c && 0x10000 ≤ c.toNat

/-- The control characters with an escape of one letter. -/
def shorts : List (Char × Char) :=
  [('\n', 'n'), ('\r', 'r'), ('\t', 't')]

/-- Whether a character is written otherwise than by a code of two digits. -/
def isWritable (c : Char) : Bool :=
  isPrintable c || shorts.any (·.1 == c) || 0x100 ≤ c.toNat

/-- The forms of a character between quotes. -/
inductive Shown (mark : Char) : Char → List Char → Prop
  | escaped {c : Char} (special : c = mark ∨ c = '\\') : Shown mark c ['\\', c]
  | short {c letter : Char} (known : (c, letter) ∈ shorts) : Shown mark c ['\\', letter]
  | plain {c : Char} (noMark : c ≠ mark) (noBackslash : c ≠ '\\')
    (printable : isPrintable c = true) : Shown mark c [c]
  | four {c : Char} (coded : isFour c = true) : Shown mark c ('\\' :: 'u' :: hexDigits 4 c.toNat)
  | eight {c : Char} (coded : isEight c = true) : Shown mark c ('\\' :: 'U' :: hexDigits 8 c.toNat)

theorem shown_quotedChar (mark : Char) {c : Char} (writable : isWritable c = true) :
    Shown mark c (Display.quotedChar mark c) := by
  unfold Display.quotedChar
  split
  · next special => exact .escaped special
  · next ordinary =>
    rw [not_or] at ordinary
    split
    · next feed => exact .short (by rw [feed]; decide)
    · next noFeed =>
      split
      · next ret => exact .short (by rw [ret]; decide)
      · next noReturn =>
        split
        · next tab => exact .short (by rw [tab]; decide)
        · next noTab =>
          split
          · next printable => exact .plain ordinary.1 ordinary.2 printable
          · next coded =>
            have large : 0x100 ≤ c.toNat := by
              simpa [isWritable, shorts, coded, Ne.symm noFeed, Ne.symm noReturn, Ne.symm noTab]
                using writable
            rw [Display.escapeCode, if_neg (Nat.not_lt.2 large)]
            split
            · next four => exact .four (by simp [isFour, coded, large, four])
            · next eight => exact .eight (by simp [isEight, coded, Nat.le_of_not_lt eight])

theorem quotedChar_of_large {c : Char} (unprintable : isPrintable c = false)
    (large : 0x100 ≤ c.toNat) : Display.quotedChar '"' c = Display.escapeCode c.toNat := by
  have other (d : Char) (small : d.toNat < 0x100) : c ≠ d := by
    rintro rfl
    omega
  rw [Display.quotedChar, if_neg (not_or.2 ⟨other '"' (by decide), other '\\' (by decide)⟩),
    if_neg (other '\n' (by decide)), if_neg (other '\r' (by decide)),
    if_neg (other '\t' (by decide)), unprintable]
  rfl

theorem quotedChar_of_isFour {c : Char} (coded : isFour c = true) :
    Display.quotedChar '"' c = '\\' :: 'u' :: hexDigits 4 c.toNat := by
  simp only [isFour, Bool.and_eq_true, Bool.not_eq_true', decide_eq_true_eq] at coded
  rw [quotedChar_of_large coded.1 coded.2.1, Display.escapeCode, if_neg (by omega),
    if_pos coded.2.2]

theorem quotedChar_of_isEight {c : Char} (coded : isEight c = true) :
    Display.quotedChar '"' c = '\\' :: 'U' :: hexDigits 8 c.toNat := by
  simp only [isEight, Bool.and_eq_true, Bool.not_eq_true', decide_eq_true_eq] at coded
  rw [quotedChar_of_large coded.1 (by omega), Display.escapeCode, if_neg (by omega),
    if_neg (by omega)]

/-! ## Forms without a mark -/

/-- Forms of a character in which a backslash and the given character do not follow each other. -/
inductive Passes (m c : Char) : List Char → Prop
  | backslash (same : c = '\\') : Passes m c ['\\', '\\']
  | escape {letter : Char} {more : List Char} (noBackslash : c ≠ '\\') (other : letter ≠ m)
    (ends : '\\' ∉ letter :: more) : Passes m c ('\\' :: letter :: more)
  | plain (noBackslash : c ≠ '\\') : Passes m c [c]

section

variable {mark m c : Char} {form rest piece : List Char} {pieces : List (List Char)}

theorem Shown.passes (shown : Shown mark c form) (noShort : m ∉ ['n', 'r', 't'])
    (quotes : c = mark → c ≠ m) (four : isFour c = true → m ≠ 'u')
    (eight : isEight c = true → m ≠ 'U') : Passes m c form := by
  have digits (width : Nat) : '\\' ∉ hexDigits width c.toNat :=
    fun member => (hexDigits_spec width c.toNat _ member).2.1 rfl
  cases shown with
  | escaped special =>
    by_cases same : c = '\\'
    · rw [same]
      exact .backslash rfl
    · exact .escape same (quotes (special.resolve_right same)) (by simpa using Ne.symm same)
  | short known =>
    simp only [shorts, List.mem_cons, Prod.mk.injEq, List.not_mem_nil, or_false] at known
    simp only [List.mem_cons, List.not_mem_nil, or_false, not_or] at noShort
    rcases known with ⟨rfl, rfl⟩ | ⟨rfl, rfl⟩ | ⟨rfl, rfl⟩
    · exact .escape (by decide) (Ne.symm noShort.1) (by decide)
    · exact .escape (by decide) (Ne.symm noShort.2.1) (by decide)
    · exact .escape (by decide) (Ne.symm noShort.2.2) (by decide)
  | plain noMark noBackslash => exact .plain noBackslash
  | four coded =>
    refine .escape ?_ (Ne.symm (four coded)) (by simpa using digits 4)
    rintro rfl
    exact absurd coded (by decide)
  | eight coded =>
    refine .escape ?_ (Ne.symm (eight coded)) (by simpa using digits 8)
    rintro rfl
    exact absurd coded (by decide)

/-- Only a character itself begins with itself. -/
theorem Passes.eq_of_head? (passes : Passes m c form) (letter : m ≠ '\\')
    (first : form.head? = some m) : c = m := by
  cases passes with
  | backslash same => exact absurd (Option.some.inj first).symm letter
  | escape _ other ends => exact absurd (Option.some.inj first).symm letter
  | plain noBackslash => exact Option.some.inj first

/-- A form without the mark belongs to one piece with what follows it. -/
theorem Passes.pairPieces (passes : Passes m c form) (letter : m ≠ '\\')
    (apart : c = '\\' → rest.head? ≠ some m) (given : pairPieces '\\' m rest = piece :: pieces) :
    pairPieces '\\' m (form ++ rest) = (form ++ piece) :: pieces := by
  cases passes with
  | backslash same =>
    rw [List.cons_append, List.singleton_append, pairPieces_cons, pairPieces_cons, given]
    · rfl
    · exact fun _ => apart same
    · exact fun _ first => letter (Option.some.inj first).symm
  | escape _ other ends =>
    rw [List.cons_append, pairPieces_cons fun _ first => other (by simpa using first),
      pairPieces_append ends given]
    rfl
  | plain noBackslash =>
    rw [List.singleton_append, pairPieces_cons fun same => absurd same noBackslash, given]
    rfl

section

variable {text : List Char} {F : Char → List Char}

theorem Passes.inhabited (passes : Passes m c form) : form ≠ [] := by
  cases passes <;> exact List.cons_ne_nil _ _

theorem head?_flatMap_ne (inhabited : ∀ c ∈ text, F c ≠ [])
    (own : ∀ c ∈ text, (F c).head? = some m → c = m) (first : text.head? ≠ some m)
    (apart : rest.head? ≠ some m) : (text.flatMap F ++ rest).head? ≠ some m := by
  cases text with
  | nil => exact apart
  | cons c text =>
    rw [List.flatMap_cons, List.append_assoc,
      List.head?_append_of_ne_nil _ (inhabited c List.mem_cons_self)]
    exact fun same => first (congrArg some (own c List.mem_cons_self same))

/-- Where a mark occurs neither in the form of a character nor in the text, the whole text belongs to
one piece with what follows it. -/
theorem pairPieces_flatMap (passes : ∀ c ∈ text, Passes m c (F c)) (letter : m ≠ '\\')
    (absent : ¬ ['\\', m] <:+: text) (apart : rest.head? ≠ some m)
    (given : Toml.pairPieces '\\' m rest = piece :: pieces) :
    Toml.pairPieces '\\' m (text.flatMap F ++ rest) = (text.flatMap F ++ piece) :: pieces := by
  induction text with
  | nil => exact given
  | cons c text ih =>
    rw [pair_infix_cons_iff, not_or] at absent
    have later : ∀ d ∈ text, Passes m d (F d) := fun d member =>
      passes d (List.mem_cons_of_mem _ member)
    have next : c = '\\' → (text.flatMap F ++ rest).head? ≠ some m := fun same =>
      head?_flatMap_ne (fun d member => (later d member).inhabited)
        (fun d member => (later d member).eq_of_head? letter)
        (fun first => absent.1 ⟨same, first⟩) apart
    rw [List.flatMap_cons, List.append_assoc, List.append_assoc,
      (passes c List.mem_cons_self).pairPieces letter next (ih later absent.2)]

end

/-- A form without the mark stays when the mark is replaced. -/
theorem Passes.replacePair (passes : Passes m c form) (letter : m ≠ '\\')
    (apart : rest.head? ≠ some m) (image : List Char) :
    replacePair '\\' m image (form ++ rest) = form ++ replacePair '\\' m image rest := by
  cases passes with
  | backslash same =>
    rw [List.cons_append, List.singleton_append, replacePair_cons, replacePair_cons fun _ => apart]
    · rfl
    · exact fun _ first => letter (Option.some.inj first).symm
  | escape _ other ends =>
    rw [List.cons_append, replacePair_cons fun _ first => other (by simpa using first),
      replacePair_append ends]
    rfl
  | plain noBackslash =>
    rw [List.singleton_append, replacePair_cons fun same => absurd same noBackslash]
    rfl

theorem Shown.head?_ne (shown : Shown mark c form) (quote : mark ≠ '\\') :
    form.head? ≠ some mark := by
  intro first
  cases shown with
  | plain noMark => exact noMark (Option.some.inj first)
  | _ => exact quote (Option.some.inj first).symm

theorem Shown.inhabited (shown : Shown mark c form) : form ≠ [] := by
  cases shown <;> exact List.cons_ne_nil _ _

/-- The characters that escapes consist of. -/
def escapeChars : List Char :=
  '\\' :: "nrtuU0123456789abcdef".toList

/-- The form of a character consists of the character and of what escapes consist of. -/
theorem Shown.mem (shown : Shown mark c form) {e : Char} (member : e ∈ form) :
    e ∈ escapeChars ∨ e = c ∧ (c = mark ∨ isPrintable c = true) := by
  have digits (width : Nat) : ∀ d ∈ hexDigits width c.toNat, d ∈ escapeChars :=
    forall_mem_hexDigits (by decide) width _
  cases shown with
  | escaped special =>
    rcases List.mem_cons.1 member with rfl | same
    · exact Or.inl (by decide)
    · obtain rfl := List.mem_singleton.1 same
      rcases special with quote | rfl
      · exact Or.inr ⟨rfl, Or.inl quote⟩
      · exact Or.inl (by decide)
  | short known =>
    simp only [shorts, List.mem_cons, Prod.mk.injEq, List.not_mem_nil, or_false] at known member
    left
    rcases member with rfl | rfl
    · decide
    · rcases known with ⟨_, rfl⟩ | ⟨_, rfl⟩ | ⟨_, rfl⟩ <;> decide
  | plain _ _ printable => exact Or.inr ⟨List.mem_singleton.1 member, Or.inr printable⟩
  | four =>
    left
    rcases List.mem_cons.1 member with rfl | later
    · decide
    rcases List.mem_cons.1 later with rfl | digit
    · decide
    · exact digits 4 e digit
  | eight =>
    left
    rcases List.mem_cons.1 member with rfl | later
    · decide
    rcases List.mem_cons.1 later with rfl | digit
    · decide
    · exact digits 8 e digit

theorem Shown.noQuote (shown : Shown mark c form) (other : c ≠ '"') : '"' ∉ form := by
  intro member
  rcases shown.mem member with escape | ⟨rfl, _⟩
  · exact absurd escape (by decide)
  · exact other rfl

/-- No form of a character has a control character in it. -/
theorem Shown.visible (shown : Shown mark c form) (quote : 32 ≤ mark.toNat) :
    ∀ e ∈ form, 32 ≤ e.toNat := by
  intro e member
  rcases shown.mem member with escape | ⟨rfl, rfl | printable⟩
  · have all : escapeChars.all (fun e => decide (32 ≤ e.toNat)) = true := by decide
    exact of_decide_eq_true (List.all_eq_true.1 all e escape)
  · exact quote
  · rw [isPrintable] at printable
    split at printable
    · exact (by simpa using printable : 32 ≤ e.toNat ∧ _).1
    · omega

end

/-! ## Literals -/

/-- The text between double quotes. -/
def written (text : List Char) : List Char :=
  text.flatMap (Display.quotedChar '"')

theorem written_cons (c : Char) (text : List Char) :
    written (c :: text) = Display.quotedChar '"' c ++ written text :=
  List.flatMap_cons

/-- The text as it is displayed between single quotes, without the escapes of these. -/
theorem replacePair_quoted {text : List Char} (writable : ∀ c ∈ text, isWritable c = true) :
    replacePair '\\' '\'' ['\''] (text.flatMap (Display.quotedChar '\'')) =
      text.flatMap fun c => if c = '\'' then [c] else Display.quotedChar '\'' c := by
  induction text with
  | nil => rfl
  | cons c text ih =>
    have rest := ih fun d member => writable d (List.mem_cons_of_mem _ member)
    have apart : (text.flatMap (Display.quotedChar '\'')).head? ≠ some '\'' := by
      cases text with
      | nil => exact nofun
      | cons d text =>
        have shown := shown_quotedChar '\'' (writable d (by simp))
        rw [List.flatMap_cons, List.head?_append_of_ne_nil _ shown.inhabited]
        exact shown.head?_ne (by decide)
    rw [List.flatMap_cons, List.flatMap_cons]
    by_cases quote : c = '\''
    · have form : Display.quotedChar '\'' c = ['\\', '\''] := by rw [quote]; decide
      rw [form, if_pos quote, quote, List.cons_append, List.singleton_append, replacePair,
        if_pos ⟨rfl, rfl⟩, rest]
    · have passes : Passes '\'' c (Display.quotedChar '\'' c) :=
        (shown_quotedChar _ (writable c List.mem_cons_self)).passes (by decide)
          (fun same => absurd same quote) (fun _ => by decide) (fun _ => by decide)
      rw [passes.replacePair (by decide) apart, if_neg quote, rest]

/-- Whatever quotes a text is displayed in, it is written as between double quotes. -/
theorem requoted {c : Char} (writable : isWritable c = true) :
    (if c = '\'' then [c] else Display.quotedChar '\'' c).flatMap
        (fun d => if d = '"' then ['\\', '"'] else [d]) = Display.quotedChar '"' c := by
  by_cases single : c = '\''
  · rw [single]
    decide
  by_cases double : c = '"'
  · rw [double]
    decide
  · have same : Display.quotedChar '\'' c = Display.quotedChar '"' c := by
      unfold Display.quotedChar
      simp only [single, double, false_or]
    have absent := (shown_quotedChar '\'' writable).noQuote double
    rw [if_neg single, same] at *
    calc (Display.quotedChar '"' c).flatMap (fun d => if d = '"' then ['\\', '"'] else [d])
        = (Display.quotedChar '"' c).flatMap fun d => [d] :=
          List.flatMap_congr fun d member => if_neg (ne_of_mem_of_not_mem member absent)
      _ = Display.quotedChar '"' c := List.flatMap_singleton' _

/-- A text is written as its characters between double quotes. -/
theorem Write.literal_eq {text : String} (writable : ∀ c ∈ text.toList, isWritable c = true)
    (absent : ¬ ['\\', 'x'] <:+: text.toList) :
    literal text = .ok (String.ofList ('"' :: written text.toList ++ ['"'])) := by
  have passes : ∀ c ∈ text.toList, Passes 'x' c (Display.quotedChar '"' c) := fun c member =>
    (shown_quotedChar _ (writable c member)).passes (by decide)
      (fun same => by rw [same]; decide) (fun _ => by decide) (fun _ => by decide)
  have whole : pairPieces '\\' 'x' (written text.toList) = [written text.toList] := by
    have pieces : pairPieces '\\' 'x' (written text.toList ++ []) = [written text.toList ++ []] :=
      pairPieces_flatMap passes (by decide) absent nofun rfl
    rwa [List.append_nil] at pieces
  have shown : (Display.quoted text).toList = Display.markFor text.toList ::
      text.toList.flatMap (Display.quotedChar (Display.markFor text.toList)) ++
        [Display.markFor text.toList] := String.toList_ofList
  have inside : (if (Display.quoted text).toList.head? = some '\'' then
      (replacePair '\\' '\'' ['\''] (Literal.inner (Display.quoted text).toList)).flatMap
        fun c => if c = '"' then ['\\', '"'] else [c]
      else Literal.inner (Display.quoted text).toList) = written text.toList := by
    have bare (mark : Char) (content : List Char) :
        Literal.inner (mark :: content ++ [mark]) = content := by
      rw [Literal.inner, List.cons_append, List.drop_one, List.tail_cons, List.dropLast_concat]
    rw [shown, bare, List.cons_append, List.head?_cons]
    by_cases single : Display.markFor text.toList = '\''
    · rw [single, if_pos rfl, replacePair_quoted writable, List.flatMap_assoc]
      exact List.flatMap_congr fun c member => requoted (writable c member)
    · have double : Display.markFor text.toList = '"' := by
        revert single
        rw [Display.markFor]
        split
        · exact fun _ => rfl
        · exact fun other => absurd rfl other
      rw [double, if_neg (by decide)]
      rfl
  rw [literal, inside, splitAtText_pair _ (Nat.le_refl _), whole]
  rfl

end Typewright.Toml
