import Mathlib.Data.List.Chain
import Typewright.Proofs.Identifier.Shrinking

/-!
# Settled identifiers

A text is settled if a pass leaves it as it is. `Identifier.pass_eq_self_iff` says what such a text
looks like (`Identifier.Settled`): it consists of characters of a name, begins with one that may
begin a name and is no small letter, and has no small letter after an underscore, a digit or a
dollar sign. The conversion always ends in a settled text (`Identifier.settled_ofText`) and leaves
settled texts alone (`Identifier.ofText_eq_self`).

Main statement: repeating passes comes to an end, at the first text that a pass leaves alone, and
this is a name that the conversion does not change any more (`Identifier.ofText_settles`).
-/

namespace Typewright.Identifier

open Text

/-- Only characters of a name, the first of which may begin one. -/
structure Legal (t : List Char) : Prop where
  part : ∀ c ∈ t, isPart c = true
  start : ∀ c ∈ t.head?, isStart c = true

theorem Legal.cons {c : Char} {t : List Char} (start : isStart c = true)
    (parts : ∀ d ∈ t, isPart d = true) : Legal (c :: t) where
  part := List.forall_mem_cons.2 ⟨isPart_of_isStart start, parts⟩
  start := by simpa using start

/-- What may stand next to each other: no small letter follows an underscore, a digit or a dollar
sign. -/
def Joined (a b : Char) : Prop :=
  (a = '_' ∨ isDigitLike a = true) → b.isLower = false

/-- A text that a pass leaves as it is. -/
structure Settled (t : List Char) : Prop extends Legal t where
  capital : ∀ c ∈ t.head?, c.isLower = false
  joined : t.IsChain Joined

/-! ## Blanking out -/

theorem blankUnlessPart_of_isPart {c : Char} (part : isPart c = true) : blankUnlessPart c = c := by
  rw [blankUnlessPart, if_pos part]

theorem isLower_of_isLower_blankUnlessPart (c : Char)
    (lower : (blankUnlessPart c).isLower = true) : c.isLower = true := by
  by_cases part : isPart c
  · rwa [blankUnlessPart_of_isPart part] at lower
  · rw [blankUnlessPart, if_neg part] at lower
    cases lower

theorem countP_map_blankUnlessPart_le (t : List Char) :
    (t.map blankUnlessPart).countP Char.isLower ≤ t.countP Char.isLower := by
  rw [List.countP_map]
  exact List.countP_mono_left fun c _ => isLower_of_isLower_blankUnlessPart c

theorem inked_map_blankUnlessPart_le (t : List Char) :
    inked (t.map blankUnlessPart) ≤ t.length := by
  have bounded := List.countP_le_length (p := fun c => !isBlank c) (l := t.map blankUnlessPart)
  rwa [List.length_map] at bounded

theorem inked_map_blankUnlessPart_lt {t : List Char} (illegal : ¬ ∀ c ∈ t, isPart c = true) :
    inked (t.map blankUnlessPart) < t.length := by
  refine Nat.lt_of_le_of_ne (inked_map_blankUnlessPart_le t) fun full => illegal fun c member => ?_
  have inkedAll : ∀ d ∈ t.map blankUnlessPart, (!isBlank d) = true :=
    List.countP_eq_length.1 (by simpa [inked] using full)
  by_contra other
  have blank := inkedAll (blankUnlessPart c) (List.mem_map_of_mem member)
  rw [blankUnlessPart, if_neg other] at blank
  cases blank

/-- Text in which nothing is illegal is kept. -/
theorem blankIllegal_of_legal {t : List Char} (legal : Legal t) : blankIllegal t = t := by
  cases t with
  | nil => rfl
  | cons c t =>
    have start : isStart c = true := legal.start c rfl
    have ink := isBlank_eq_false_of_isPart (legal.part c List.mem_cons_self)
    have kept : t.map blankUnlessPart = t := by
      rw [List.map_congr_left fun d member =>
        blankUnlessPart_of_isPart (legal.part d (List.mem_cons_of_mem _ member))]
      exact List.map_id' t
    simp [blankIllegal, ink, start, kept]

theorem countP_isLower_blankIllegal_le (t : List Char) :
    (blankIllegal t).countP Char.isLower ≤ t.countP Char.isLower := by
  have whole := List.takeWhile_append_dropWhile (p := isBlank) (l := t)
  have space : Char.isLower ' ' = false := rfl
  rw [blankIllegal]
  split
  · split <;> simp [space]
  · next c rest shape =>
    have fewer := countP_map_blankUnlessPart_le rest
    rw [shape] at whole
    have counted := congrArg (List.countP Char.isLower) whole
    rw [List.countP_append, List.countP_cons] at counted
    split
    · split
      all_goals
        simp only [List.nil_append, List.cons_append, List.countP_cons, space,
          Bool.false_eq_true, if_false]
        omega
    · simp only [List.countP_cons, space, Bool.false_eq_true, if_false]
      omega

/-- Text in which something is illegal loses ink or length. -/
theorem inked_blankIllegal_lt {t : List Char} (illegal : ¬ Legal t) :
    inked (blankIllegal t) < t.length := by
  have whole := List.takeWhile_append_dropWhile (p := isBlank) (l := t)
  have space : inked [' '] = 0 := rfl
  rw [blankIllegal]
  split
  · have ink : inked (if (t.takeWhile isBlank).isEmpty then [] else [' ']) = 0 := by
      split
      · rfl
      · exact space
    rw [ink]
    refine Nat.pos_of_ne_zero fun empty => illegal ?_
    rw [List.length_eq_zero_iff.1 empty]
    exact ⟨by simp, by simp⟩
  · next c rest shape =>
    rw [shape] at whole
    have sizes := congrArg List.length whole
    rw [List.length_append, List.length_cons] at sizes
    have bounded := inked_map_blankUnlessPart_le rest
    have one : inked (c :: rest.map blankUnlessPart) ≤ inked (rest.map blankUnlessPart) + 1 := by
      rw [inked, inked, List.countP_cons]
      split <;> omega
    split
    · next start =>
      split
      · next none =>
        rw [List.isEmpty_iff] at none
        rw [none, List.nil_append] at whole
        have broken : ¬ ∀ d ∈ rest, isPart d = true := by
          intro parts
          rw [← whole] at illegal
          exact illegal (.cons start parts)
        have lost := inked_map_blankUnlessPart_lt broken
        rw [List.nil_append]
        omega
      · next some =>
        rw [List.isEmpty_iff, ← List.length_eq_zero_iff] at some
        have blank : inked ([' '] ++ c :: rest.map blankUnlessPart) =
            inked (c :: rest.map blankUnlessPart) := rfl
        rw [blank]
        omega
    · have blank : inked (' ' :: rest.map blankUnlessPart) = inked (rest.map blankUnlessPart) := rfl
      rw [blank]
      omega

/-! ## Passes make progress -/

theorem length_capitaliseFirst (t : List Char) : (capitaliseFirst t).length = t.length := by
  cases t <;> rfl

theorem length_pass_le (t : List Char) : (pass t).length ≤ inked (blankIllegal t) := by
  rw [pass, length_capitaliseFirst, ← List.countP_eq_length_filter]
  refine Shrinks.inked_le ?_
  refine (shrinks_capitaliseAfter _ _ _).trans ((shrinks_capitaliseAfter _ _ _).trans ?_)
  exact (shrinks_joinSnake _).trans (shrinks_capitaliseMarked _)

theorem weight_pass_lt_of_not_legal {t : List Char} (illegal : ¬ Legal t) :
    weight (pass t) < weight t := by
  have shorter := length_pass_le t
  have lost := inked_blankIllegal_lt illegal
  have fewer := (shrinks_pass t).countP_isLower_le
  have fewest := countP_isLower_blankIllegal_le t
  rw [weight, weight]
  omega

/-- A pass that changes a text makes it lighter. -/
theorem weight_pass_lt {t : List Char} (changed : pass t ≠ t) : weight (pass t) < weight t := by
  by_cases legal : Legal t
  · have shrinks := shrinks_pass t
    rw [blankIllegal_of_legal legal] at shrinks
    by_contra heavy
    exact changed (shrinks.eq_of_weight_le (by omega))
  · exact weight_pass_lt_of_not_legal legal

theorem weight_le_length (t : List Char) : weight t ≤ 2 * t.length := by
  have letters := List.countP_le_length (p := Char.isLower) (l := t)
  rw [weight]
  omega

/-- With fuel for its weight, a text is brought to one that passes leave alone. -/
theorem pass_settle (fuel : Nat) (t : List Char) (enough : weight t < fuel) :
    pass (settle fuel t) = settle fuel t := by
  induction fuel generalizing t with
  | zero => omega
  | succ fuel ih =>
    rw [settle]
    by_cases fixed : pass t = t
    · simp only [fixed, if_true]
    · simp only [if_neg fixed]
      have lighter := weight_pass_lt fixed
      exact ih (pass t) (by omega)

/-! ## What passes leave alone -/

theorem joinSnake_eq_self_iff {t : List Char} :
    joinSnake t = t ↔ t.IsChain fun a b => a = '_' → b.isLower = false := by
  fun_induction joinSnake t with
  | case1 => simp
  | case2 c => simp
  | case3 c d rest joined ih =>
    have shorter := (shrinks_joinSnake rest).length_le
    constructor
    · intro same
      have sizes := congrArg List.length same
      simp only [List.length_cons] at sizes
      omega
    · intro chain
      rw [List.isChain_cons_cons] at chain
      have small := chain.1 joined.1
      rw [joined.2] at small
      cases small
  | case4 c d rest apart ih =>
    rw [List.isChain_cons_cons, List.cons_inj_right, ih, iff_and_self]
    intro _ mark
    rw [Bool.eq_false_iff]
    exact fun lower => apart ⟨mark, lower⟩

theorem toUpper_eq_self_iff {c : Char} : c.toUpper = c ↔ c.isLower = false := by
  constructor
  · intro same
    rw [← same]
    exact Char.isLower_toUpper c
  · intro other
    exact Char.toUpper_of_not_isLower (by simp [other])

theorem capitaliseAfter_eq_self_iff {cls : Char → Bool} {after : Bool} {t : List Char} :
    capitaliseAfter cls after t = t ↔
      (after = true → ∀ c ∈ t.head?, c.isLower = false) ∧
        t.IsChain fun a b => cls a = true → b.isLower = false := by
  induction t generalizing after with
  | nil => simp [capitaliseAfter]
  | cons c t ih =>
    rw [capitaliseAfter, List.cons_eq_cons, ih, List.isChain_cons]
    cases after with
    | true =>
      simp only [if_true, toUpper_eq_self_iff, List.head?_cons, Option.mem_def,
        Option.some.injEq, forall_eq', true_implies]
      tauto
    | false =>
      simp only [Bool.false_eq_true, if_false, true_and, false_implies, Option.mem_def]
      tauto

theorem capitaliseFirst_eq_self_iff {t : List Char} :
    capitaliseFirst t = t ↔ ∀ c ∈ t.head?, c.isLower = false := by
  cases t with
  | nil => simp [capitaliseFirst]
  | cons c t => simp [capitaliseFirst, toUpper_eq_self_iff]

theorem filter_of_legal {t : List Char} (legal : Legal t) :
    t.filter (fun c => !isBlank c) = t := by
  rw [List.filter_eq_self]
  intro c member
  simp [isBlank_eq_false_of_isPart (legal.part c member)]

/-- Blanks do not stand in legal texts, so nothing is capitalised after them. -/
theorem capitaliseAfter_isBlank_of_legal {t : List Char} (legal : Legal t) :
    capitaliseAfter isBlank false t = t := by
  have part := legal.part
  rw [capitaliseAfter_eq_self_iff]
  refine ⟨fun marked => absurd marked (by decide), ?_⟩
  clear legal
  induction t with
  | nil => exact .nil
  | cons c t ih =>
    rw [List.isChain_cons]
    refine ⟨fun d _ blank => ?_, ih fun d member => part d (List.mem_cons_of_mem _ member)⟩
    rw [isBlank_eq_false_of_isPart (part c List.mem_cons_self)] at blank
    cases blank

theorem isChain_joined_iff {t : List Char} :
    t.IsChain Joined ↔ (t.IsChain fun a b => a = '_' → b.isLower = false) ∧
      t.IsChain fun a b => isDigitLike a = true → b.isLower = false := by
  induction t with
  | nil => simp
  | cons c t ih =>
    simp only [List.isChain_cons, ih, Joined]
    grind

theorem capitaliseMarked_of_joined {t : List Char}
    (joined : t.IsChain fun a b => a = '_' → b.isLower = false) : capitaliseMarked t = t := by
  unfold capitaliseMarked
  split
  · next c rest =>
    rw [List.isChain_cons_cons] at joined
    rw [joined.1 rfl]
    rfl
  · rfl

/-- What a pass leaves alone. -/
theorem pass_eq_self_iff {t : List Char} : pass t = t ↔ Settled t := by
  constructor
  · intro fixed
    have legal : Legal t := by
      by_contra illegal
      have lighter := weight_pass_lt_of_not_legal illegal
      rw [fixed] at lighter
      exact Nat.lt_irrefl _ lighter
    -- every stage lies between the pass, which is the text, and the text
    rw [pass, blankIllegal_of_legal legal] at fixed
    have marked : capitaliseMarked t = t := by
      refine (shrinks_capitaliseMarked t).antisymm ?_
      nth_rewrite 1 [← fixed]
      refine (shrinks_capitaliseFirst _).trans ((shrinks_filter _).trans ?_)
      refine (shrinks_capitaliseAfter _ _ _).trans ((shrinks_capitaliseAfter _ _ _).trans ?_)
      exact shrinks_joinSnake _
    rw [marked] at fixed
    have snake : joinSnake t = t := by
      refine (shrinks_joinSnake t).antisymm ?_
      nth_rewrite 1 [← fixed]
      refine (shrinks_capitaliseFirst _).trans ((shrinks_filter _).trans ?_)
      exact (shrinks_capitaliseAfter _ _ _).trans (shrinks_capitaliseAfter _ _ _)
    rw [snake] at fixed
    have digits : capitaliseAfter isDigitLike false t = t := by
      refine (shrinks_capitaliseAfter _ _ t).antisymm ?_
      nth_rewrite 1 [← fixed]
      exact (shrinks_capitaliseFirst _).trans
        ((shrinks_filter _).trans (shrinks_capitaliseAfter _ _ _))
    rw [digits, capitaliseAfter_isBlank_of_legal legal, filter_of_legal legal] at fixed
    exact ⟨legal, capitaliseFirst_eq_self_iff.1 fixed,
      isChain_joined_iff.2 ⟨joinSnake_eq_self_iff.1 snake, (capitaliseAfter_eq_self_iff.1 digits).2⟩⟩
  · intro settled
    have legal := settled.toLegal
    obtain ⟨marks, digits⟩ := isChain_joined_iff.1 settled.joined
    have kept : capitaliseAfter isDigitLike false t = t :=
      capitaliseAfter_eq_self_iff.2 ⟨fun marked => absurd marked (by decide), digits⟩
    rw [pass, blankIllegal_of_legal legal, capitaliseMarked_of_joined marks,
      joinSnake_eq_self_iff.2 marks, kept, capitaliseAfter_isBlank_of_legal legal,
      filter_of_legal legal, capitaliseFirst_eq_self_iff.2 settled.capital]

/-! ## The conversion -/

theorem settle_of_settled (fuel : Nat) {t : List Char} (settled : Settled t) :
    settle fuel t = t := by
  cases fuel with
  | zero => rfl
  | succ fuel => simp only [settle, pass_eq_self_iff.2 settled, if_true]

/-- The conversion ends in a settled text. -/
theorem settled_ofText (text : String) : Settled (ofText text).toList := by
  have enough := weight_le_length (plain text.toList)
  rw [ofText, String.toList_ofList]
  exact pass_eq_self_iff.1 (pass_settle _ _ (by omega))

theorem plain_of_isPart {t : List Char} (part : ∀ c ∈ t, isPart c = true) : plain t = t := by
  induction t with
  | nil => rfl
  | cons c t ih =>
    have ascii := toNat_lt_of_isPart (part c List.mem_cons_self)
    have rest := ih fun d member => part d (List.mem_cons_of_mem _ member)
    rw [plain] at rest ⊢
    rw [List.flatMap_cons, rest, plainChar, if_pos ascii]
    rfl

/-- The conversion leaves settled texts alone. -/
theorem ofText_eq_self {text : String} (settled : Settled text.toList) : ofText text = text := by
  rw [ofText, plain_of_isPart settled.part]
  simp only [settle_of_settled _ settled, String.ofList_toList]

/-! ## The end of the passes -/

/-- Passes from a text are repeated up to the first result that a further pass leaves alone, and this
is the given one. -/
def EndsIn (t result : List Char) : Prop :=
  ∃ n, (∀ m < n, pass^[m + 1] t ≠ pass^[m] t) ∧ pass^[n + 1] t = pass^[n] t ∧ pass^[n] t = result

/-- Nothing, or a character that may begin a name and is no small letter, and then only characters of
a name. -/
def IsCapitalised (t : List Char) : Prop :=
  t = [] ∨ ∃ c rest, t = c :: rest ∧ isStart c = true ∧ c.isLower = false ∧
    ∀ d ∈ rest, isPart d = true

/-- With fuel for the weight of a text, passes end as they would without a bound. -/
theorem endsIn_settle (fuel : Nat) (t : List Char) (enough : weight t < fuel) :
    EndsIn t (settle fuel t) := by
  induction fuel generalizing t with
  | zero => omega
  | succ fuel ih =>
    rw [settle]
    by_cases fixed : pass t = t
    · simp only [fixed, if_true]
      exact ⟨0, by simp, fixed, rfl⟩
    · simp only [if_neg fixed]
      have lighter := weight_pass_lt fixed
      obtain ⟨n, before, ends, result⟩ := ih (pass t) (by omega)
      refine ⟨n + 1, fun m earlier => ?_, ends, result⟩
      cases m with
      | zero => exact fixed
      | succ m => exact before m (by omega)

theorem isCapitalised_of_settled {t : List Char} (settled : Settled t) : IsCapitalised t := by
  cases t with
  | nil => exact Or.inl rfl
  | cons c rest =>
    exact Or.inr ⟨c, rest, rfl, settled.start c rfl, settled.capital c rfl,
      fun d member => settled.part d (List.mem_cons_of_mem c member)⟩

/-- Passes come to an end for every text, the result is empty or a name that begins with no small
letter, and it is its own safe identifier. -/
theorem ofText_settles (text : String) :
    EndsIn (plain text.toList) (ofText text).toList ∧ IsCapitalised (ofText text).toList ∧
      ofText (ofText text) = ofText text := by
  have settled := settled_ofText text
  refine ⟨?_, isCapitalised_of_settled settled, ofText_eq_self settled⟩
  have light := weight_le_length (plain text.toList)
  have ends := endsIn_settle (2 * (plain text.toList).length + 1) (plain text.toList) (by omega)
  rwa [ofText, String.toList_ofList]

/-- One pass leaves a digit in front, which the next one drops. -/
example : pass "/2fa".toList = "2Fa".toList ∧ pass "2Fa".toList = "Fa".toList := by
  decide +kernel

end Typewright.Identifier
