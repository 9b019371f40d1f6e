import Mathlib.Algebra.Order.Ring.Int
import Typewright.Proofs.TypeScript.Grammar

/-!
# Braces and their partners

The partner of an opening brace closes it, with balanced braces in between (`Source.Balanced`,
`Source.IsPair`). The reader counts from its start, also the strays: closing braces in front of the
first opening one. It answers with the first closing brace at which as many are open as there were
strays (`Source.IsAnswer`). Without strays that is the partner; with strays it never is, so the two
agree exactly if both fail (`Source.bracePair?_partner_iff`).
-/

namespace Typewright.Source

variable {place : Place} {braces rest front back : List Brace} {text : List Char}
  {first last offset : Nat} {depth bound : Int}

/-! ## Levels -/

/-- What a brace adds to the number of open ones. -/
def Brace.step (brace : Brace) : Int :=
  if brace.opens then 1 else -1

/-- How many more braces are opened than closed. -/
def level (braces : List Brace) : Int :=
  (braces.map Brace.step).sum

@[simp] theorem level_nil : level [] = 0 :=
  rfl

@[simp] theorem level_cons (brace : Brace) (rest : List Brace) :
    level (brace :: rest) = brace.step + level rest := by
  simp [level]

@[simp] theorem level_append (front back : List Brace) :
    level (front ++ back) = level front + level back := by
  simp [level]

theorem Brace.step_of_opens {brace : Brace} (opens : brace.opens = true) : brace.step = 1 := by
  rw [step, if_pos opens]

theorem Brace.step_of_closes {brace : Brace} (closes : brace.opens = false) : brace.step = -1 := by
  rw [step, closes]
  rfl

/-- No closing brace stands where a given number is open. -/
def Avoids (bound : Int) (braces : List Brace) : Prop :=
  ∀ front brace back, braces = front ++ brace :: back → brace.opens = false → level front ≠ bound

theorem avoids_nil (bound : Int) : Avoids bound [] := by
  intro front brace back shape
  simp at shape

theorem avoids_cons_iff {brace : Brace} : Avoids bound (brace :: rest) ↔
    (brace.opens = false → bound ≠ 0) ∧ Avoids (bound - brace.step) rest := by
  constructor
  · intro avoids
    refine ⟨fun closes here => avoids [] brace rest rfl closes here.symm, ?_⟩
    intro front other back shape closes reached
    refine avoids (brace :: front) other back (by rw [shape, List.cons_append]) closes ?_
    rw [level_cons, reached]
    omega
  · intro avoids front other back shape closes reached
    cases front with
    | nil =>
      obtain ⟨rfl, _⟩ := List.cons.inj shape
      exact avoids.1 closes reached.symm
    | cons first front =>
      obtain ⟨rfl, rfl⟩ := List.cons.inj shape
      rw [level_cons] at reached
      exact avoids.2 front other back rfl closes (by omega)

/-- The first closing brace that stands where a given number is open. -/
def ClosesAt (bound : Int) (braces : List Brace) (last : Nat) : Prop :=
  ∃ inside after, braces = inside ++ ⟨last, false⟩ :: after ∧ level inside = bound ∧
    Avoids bound inside

theorem closesAt_nil : ¬ ClosesAt bound [] last := by
  intro closes
  obtain ⟨inside, after, shape, _⟩ := closes
  simp at shape

theorem closesAt_cons_iff {brace : Brace} : ClosesAt bound (brace :: rest) last ↔
    if brace.opens = false ∧ bound = 0 then brace.offset = last
    else ClosesAt (bound - brace.step) rest last := by
  constructor
  · intro closesAt
    obtain ⟨inside, after, shape, reached, avoids⟩ := closesAt
    cases inside with
    | nil =>
      obtain ⟨rfl, _⟩ := List.cons.inj shape
      rw [if_pos ⟨rfl, reached.symm⟩]
    | cons first inside =>
      obtain ⟨rfl, rfl⟩ := List.cons.inj shape
      rw [avoids_cons_iff] at avoids
      rw [level_cons] at reached
      rw [if_neg fun here => avoids.1 here.1 here.2]
      exact ⟨inside, after, rfl, by omega, avoids.2⟩
  · intro given
    split at given
    next here =>
      obtain ⟨closes, rfl⟩ := here
      subst given
      refine ⟨[], rest, ?_, rfl, avoids_nil 0⟩
      rw [List.nil_append, ← closes]
    next elsewhere =>
      obtain ⟨inside, after, rfl, reached, avoids⟩ := given
      refine ⟨brace :: inside, after, rfl, ?_, ?_⟩
      · rw [level_cons, reached]
        omega
      · exact avoids_cons_iff.2 ⟨fun closes here => elsewhere ⟨closes, here⟩, avoids⟩

/-- Braces with offsets of their own are closed in one place for one number only. -/
theorem ClosesAt.bound_unique {other : Int} (closes : ClosesAt bound braces last)
    (closesToo : ClosesAt other braces last)
    (sorted : braces.Pairwise fun one other => one.offset < other.offset) : bound = other := by
  induction braces generalizing bound other with
  | nil => exact absurd closes closesAt_nil
  | cons brace rest ih =>
    obtain ⟨before, sorted⟩ := List.pairwise_cons.1 sorted
    have later : ∀ {bound : Int}, ClosesAt bound rest last → brace.offset < last := by
      intro bound closes
      obtain ⟨inside, after, rfl, _⟩ := closes
      exact before ⟨last, false⟩ (by simp)
    rw [closesAt_cons_iff] at closes closesToo
    split at closes
    next here =>
      split at closesToo
      next hereToo => exact here.2.trans hereToo.2.symm
      next => exact absurd (later closesToo) (by omega)
    next =>
      split at closesToo
      next => exact absurd (later closes) (by omega)
      next =>
        have same := ih closes closesToo sorted
        omega

/-- Levels fall one by one, so what ends below a level has passed it. -/
theorem exists_closesAt (high : bound ≤ 0) (low : level braces < bound) :
    ∃ last, ClosesAt bound braces last := by
  induction braces generalizing bound with
  | nil =>
    rw [level_nil] at low
    omega
  | cons brace rest ih =>
    by_cases here : brace.opens = false ∧ bound = 0
    · exact ⟨brace.offset, closesAt_cons_iff.2 (by rw [if_pos here])⟩
    rw [level_cons] at low
    have still : bound - brace.step ≤ 0 := by
      cases opens : brace.opens with
      | false =>
        have apart : bound ≠ 0 := fun zero => here ⟨opens, zero⟩
        rw [Brace.step_of_closes opens]
        omega
      | true =>
        rw [Brace.step_of_opens opens]
        omega
    obtain ⟨last, closesAt⟩ := ih still (by omega)
    exact ⟨last, closesAt_cons_iff.2 (by rwa [if_neg here])⟩

/-- A closing brace where a number is open makes for a first one. -/
theorem exists_closesAt_iff :
    (∃ last, ClosesAt bound braces last) ↔ ¬ Avoids bound braces := by
  induction braces generalizing bound with
  | nil =>
    constructor
    · intro found
      obtain ⟨last, closes⟩ := found
      exact absurd closes closesAt_nil
    · exact fun passed => absurd (avoids_nil bound) passed
  | cons brace rest ih =>
    simp only [closesAt_cons_iff, avoids_cons_iff]
    by_cases here : brace.opens = false ∧ bound = 0
    · simp [here]
    · simp only [if_neg here, ih]
      have passes : brace.opens = false → bound ≠ 0 := fun closes zero => here ⟨closes, zero⟩
      rw [and_iff_right passes]

/-! ## Balanced braces -/

/-- Braces that are closed in the order opposite to that in which they are opened. -/
inductive Balanced : List Brace → Prop
  | nil : Balanced []
  | group {opening closing : Brace} {inside outside : List Brace} (opens : opening.opens = true)
      (within : Balanced inside) (closes : closing.opens = false) (behind : Balanced outside) :
      Balanced (opening :: (inside ++ closing :: outside))

theorem avoids_append_iff : Avoids bound (front ++ back) ↔
    Avoids bound front ∧ Avoids (bound - level front) back := by
  induction front generalizing bound with
  | nil => simp [avoids_nil]
  | cons brace front ih =>
    rw [List.cons_append, avoids_cons_iff, avoids_cons_iff, ih, level_cons, and_assoc,
      sub_add_eq_sub_sub]

/-- Balanced braces end where they begin and are never closed below that. -/
theorem Balanced.avoids (balanced : Balanced braces) (low : bound ≤ 0) :
    level braces = 0 ∧ Avoids bound braces := by
  induction balanced generalizing bound with
  | nil => exact ⟨rfl, avoids_nil _⟩
  | @group opening closing inside outside opens _ closes _ within behind =>
    obtain ⟨level, avoids⟩ := @within (bound - 1) (by omega)
    obtain ⟨levelBehind, avoidsBehind⟩ := @behind bound low
    refine ⟨?_, ?_⟩
    · rw [level_cons, level_append, level_cons, level, levelBehind, Brace.step_of_opens opens,
        Brace.step_of_closes closes]
      rfl
    · rw [avoids_cons_iff, avoids_append_iff, avoids_cons_iff, level, Brace.step_of_opens opens,
        Brace.step_of_closes closes]
      have back : bound - 1 - 0 - -1 = bound := by omega
      exact ⟨fun closes => absurd opens (by simp [closes]), avoids, fun _ => by omega,
        by rwa [back]⟩

theorem balanced_iff : Balanced braces ↔ level braces = 0 ∧ Avoids 0 braces := by
  constructor
  · exact fun balanced => balanced.avoids le_rfl
  · intro given
    induction length : braces.length using Nat.strong_induction_on generalizing braces with
    | _ size ih =>
    subst length
    obtain ⟨reached, avoids⟩ := given
    cases braces with
    | nil => exact .nil
    | cons opening rest =>
      rw [avoids_cons_iff] at avoids
      have opens : opening.opens = true := by
        cases first : opening.opens with
        | false => exact absurd rfl (avoids.1 first)
        | true => rfl
      rw [level_cons, Brace.step_of_opens opens] at reached
      rw [Brace.step_of_opens opens] at avoids
      -- The partner of the first brace is where none is open behind it.
      obtain ⟨last, inside, outside, rfl, within, avoidsInside⟩ :=
        @exists_closesAt rest 0 le_rfl (by omega)
      rw [avoids_append_iff, avoids_cons_iff, within, Brace.step_of_closes rfl] at avoids
      rw [level_append, level_cons, within, Brace.step_of_closes rfl] at reached
      refine .group opens (ih inside.length ?_ ⟨within, avoidsInside⟩ rfl) rfl
        (ih outside.length ?_ ⟨by omega, avoids.2.2.2⟩ rfl)
      · simp only [List.length_cons, List.length_append]
        omega
      · simp only [List.length_cons, List.length_append]
        omega

/-! ## Pairs -/

/-- An opening brace, the strays in front of it and the braces behind it. -/
structure Opens (braces strays : List Brace) (first : Nat) (behind : List Brace) : Prop where
  shape : braces = strays ++ ⟨first, true⟩ :: behind
  closing : ∀ brace ∈ strays, brace.opens = false

/-- The first opening brace and its partner. -/
def IsPair (braces : List Brace) (first last : Nat) : Prop :=
  ∃ strays inside after, Opens braces strays first (inside ++ ⟨last, false⟩ :: after) ∧
    Balanced inside

/-- The first opening brace and the first closing one behind it with as many open in between as
there were strays. -/
def IsAnswer (braces : List Brace) (first last : Nat) : Prop :=
  ∃ strays behind, Opens braces strays first behind ∧ ClosesAt strays.length behind last

theorem not_opens_nil {strays behind : List Brace} : ¬ Opens [] strays first behind := by
  intro opens
  have shape := opens.shape
  simp at shape

/-- The first brace opens, or it is a stray. -/
theorem opens_cons_iff {brace : Brace} {strays behind : List Brace} :
    Opens (brace :: rest) strays first behind ↔
      if brace.opens then strays = [] ∧ brace.offset = first ∧ rest = behind
      else ∃ later, strays = brace :: later ∧ Opens rest later first behind := by
  constructor
  · intro given
    obtain ⟨shape, closing⟩ := given
    cases strays with
    | nil =>
      obtain ⟨rfl, rfl⟩ := List.cons.inj shape
      rw [if_pos rfl]
      exact ⟨rfl, rfl, rfl⟩
    | cons stray later =>
      obtain ⟨rfl, rfl⟩ := List.cons.inj shape
      rw [if_neg (by simp [closing brace List.mem_cons_self])]
      exact ⟨later, rfl, rfl, fun brace member => closing brace (List.mem_cons_of_mem _ member)⟩
  · intro given
    split at given
    next opens =>
      obtain ⟨rfl, rfl, rfl⟩ := given
      exact ⟨by rw [List.nil_append, ← opens], by simp⟩
    next closes =>
      obtain ⟨later, rfl, shape, closing⟩ := given
      refine ⟨by rw [shape, List.cons_append], fun other member => ?_⟩
      rcases List.mem_cons.1 member with rfl | member
      · simpa using closes
      · exact closing other member

theorem Opens.unique {strays behind straysToo behindToo : List Brace} {firstToo : Nat}
    (opens : Opens braces strays first behind)
    (opensToo : Opens braces straysToo firstToo behindToo) :
    strays = straysToo ∧ first = firstToo ∧ behind = behindToo := by
  induction braces generalizing strays straysToo with
  | nil => exact absurd opens not_opens_nil
  | cons brace rest ih =>
    rw [opens_cons_iff] at opens opensToo
    split at opens
    next here =>
      rw [if_pos here] at opensToo
      obtain ⟨rfl, rfl, rfl⟩ := opens
      obtain ⟨rfl, rfl, rfl⟩ := opensToo
      exact ⟨rfl, rfl, rfl⟩
    next later =>
      rw [if_neg later] at opensToo
      obtain ⟨others, rfl, opens⟩ := opens
      obtain ⟨othersToo, rfl, opensToo⟩ := opensToo
      obtain ⟨rfl, rfl, rfl⟩ := ih opens opensToo
      exact ⟨rfl, rfl, rfl⟩

theorem isPair_iff : IsPair braces first last ↔
    ∃ strays behind, Opens braces strays first behind ∧ ClosesAt 0 behind last := by
  constructor
  · intro pair
    obtain ⟨strays, inside, after, opens, balanced⟩ := pair
    obtain ⟨reached, avoids⟩ := balanced_iff.1 balanced
    exact ⟨strays, _, opens, inside, after, rfl, reached, avoids⟩
  · intro given
    obtain ⟨strays, behind, opens, inside, after, rfl, reached, avoids⟩ := given
    exact ⟨strays, inside, after, opens, balanced_iff.2 ⟨reached, avoids⟩⟩

/-! ## What the reader finds -/

/-- A character is a brace of code, or the reader passes over it. -/
theorem place_cases (place : Place) (c : Char) :
    (place.isCode = true ∧ c = '\x7b') ∨ (place.isCode = true ∧ c = '\x7d') ∨
      (place.isCode = true → c ≠ '\x7b' ∧ c ≠ '\x7d') := by
  by_cases opens : place.isCode = true ∧ c = '\x7b'
  · exact .inl opens
  by_cases closes : place.isCode = true ∧ c = '\x7d'
  · exact .inr (.inl closes)
  · exact .inr (.inr fun code => ⟨fun same => opens ⟨code, same⟩, fun same => closes ⟨code, same⟩⟩)

/-- Behind an opening brace, the reader finds the closing one that brings the depth to zero. -/
theorem bracePairFrom?_some_iff {answer : Nat × Nat} :
    bracePairFrom? place (some first) depth offset text = some answer ↔
      answer.1 = first ∧ ClosesAt (1 - depth) (bracesFrom place offset text) answer.2 := by
  induction text generalizing place depth offset with
  | nil =>
    rw [bracePairFrom?, bracesFrom]
    simp [closesAt_nil]
  | cons c text ih =>
    rw [bracePairFrom?_cons]
    rcases place_cases place c with ⟨code, rfl⟩ | ⟨code, rfl⟩ | inert
    · have deeper : depthAfter depth '\x7b' = depth + 1 := rfl
      rw [bracesFrom_opening code, if_neg (by simp), if_pos code, deeper, ih, closesAt_cons_iff,
        if_neg (by simp), Brace.step_of_opens rfl, sub_add_eq_sub_sub]
    · have back : depthAfter depth '\x7d' = depth - 1 := rfl
      rw [bracesFrom_closing code, back, if_pos code, closesAt_cons_iff, Brace.step_of_closes rfl]
      by_cases last : depth = 1
      · subst last
        rw [if_pos ⟨code, rfl, rfl⟩, if_pos ⟨rfl, rfl⟩, Option.some.injEq, Prod.ext_iff]
        exact and_congr eq_comm Iff.rfl
      · have lower : 1 - (depth - 1) = 1 - depth - -1 := by omega
        rw [if_neg fun here => last (by omega), if_neg fun here => last (by omega), ih, lower]
    · have still : (if place.isCode then depthAfter depth c else depth) = depth := by
        split
        next code => rw [depthAfter, if_neg (inert code).1, if_neg (inert code).2]
        next => rfl
      rw [bracesFrom_cons inert, if_neg fun here => (inert here.1).2 here.2.1, still, ih]

/-- Before the first opening brace, the reader counts the strays. -/
theorem bracePairFrom?_none_iff {answer : Nat × Nat} :
    bracePairFrom? place none depth offset text = some answer ↔
      ∃ strays behind, Opens (bracesFrom place offset text) strays answer.1 behind ∧
        ClosesAt (strays.length - depth) behind answer.2 := by
  induction text generalizing place depth offset with
  | nil =>
    rw [bracePairFrom?, bracesFrom]
    simp [not_opens_nil]
  | cons c text ih =>
    rcases place_cases place c with ⟨code, rfl⟩ | ⟨code, rfl⟩ | inert
    · have step : bracePairFrom? place none depth offset ('\x7b' :: text) =
          bracePairFrom? (place.after '\x7b') (some offset) (depth + 1) (offset + 1) text := by
        rw [bracePairFrom?, if_pos code]
        rfl
      have noStrays : ((([] : List Brace).length : Int) - depth) = 1 - (depth + 1) := by simp
      rw [step, bracesFrom_opening code, bracePairFrom?_some_iff, ← noStrays]
      simp only [opens_cons_iff, if_true]
      constructor
      · intro given
        obtain ⟨same, closes⟩ := given
        exact ⟨[], _, ⟨rfl, same.symm, rfl⟩, closes⟩
      · intro given
        obtain ⟨strays, behind, ⟨rfl, same, rfl⟩, closes⟩ := given
        exact ⟨same.symm, closes⟩
    · have step : bracePairFrom? place none depth offset ('\x7d' :: text) =
          bracePairFrom? (place.after '\x7d') none (depth - 1) (offset + 1) text := by
        rw [bracePairFrom?, if_pos code]
        rfl
      have oneMore : ∀ (stray : Brace) (strays : List Brace),
          (((stray :: strays).length : Int) - depth) = strays.length - (depth - 1) := by
        intro stray strays
        rw [List.length_cons]
        omega
      rw [step, bracesFrom_closing code, ih]
      simp only [opens_cons_iff, Bool.false_eq_true, if_false]
      constructor
      · intro given
        obtain ⟨strays, behind, opens, closes⟩ := given
        exact ⟨_, behind, ⟨strays, rfl, opens⟩, by rwa [oneMore]⟩
      · intro given
        obtain ⟨_, behind, ⟨strays, rfl, opens⟩, closes⟩ := given
        exact ⟨strays, behind, opens, by rwa [oneMore] at closes⟩
    · have step : bracePairFrom? place none depth offset (c :: text) =
          bracePairFrom? (place.after c) none depth (offset + 1) text := by
        rw [bracePairFrom?]
        split
        next code => simp [depthAfter, inert code]
        next => rfl
      rw [step, bracesFrom_cons inert, ih]

theorem bracePair?_eq_some_iff {start : Nat} : bracePair? text start = some (first, last) ↔
    IsAnswer (bracesFrom .code start (text.drop start)) first last := by
  rw [bracePair?, bracePairFrom?_none_iff]
  simp only [IsAnswer, sub_zero]

theorem isAnswer_iff_isPair
    (sorted : braces.Pairwise fun one other => one.offset < other.offset) :
    (∀ first last, IsAnswer braces first last ↔ IsPair braces first last) ↔
      ∀ strays first behind, Opens braces strays first behind →
        strays = [] ∨ (Avoids 0 behind ∧ Avoids strays.length behind) := by
  simp only [isPair_iff]
  constructor
  · intro agree strays first behind opens
    by_cases none : strays = []
    · exact .inl none
    -- Whichever of the two finds something, the other would have to find the same.
    have apart : ∀ last, ¬ (ClosesAt 0 behind last ∧ ClosesAt strays.length behind last) := by
      intro last both
      have sortedBehind : behind.Pairwise fun one other => one.offset < other.offset := by
        rw [opens.shape] at sorted
        exact (List.pairwise_cons.1 (List.pairwise_append.1 sorted).2.1).2
      have same := both.1.bound_unique both.2 sortedBehind
      exact none (List.length_eq_zero_iff.1 (by omega))
    refine .inr ⟨?_, ?_⟩
    · by_contra passed
      obtain ⟨last, closes⟩ := exists_closesAt_iff.2 passed
      obtain ⟨others, rest, opensToo, answers⟩ :=
        (agree first last).2 ⟨strays, behind, opens, closes⟩
      obtain ⟨rfl, _, rfl⟩ := opens.unique opensToo
      exact apart last ⟨closes, answers⟩
    · by_contra passed
      obtain ⟨last, answers⟩ := exists_closesAt_iff.2 passed
      obtain ⟨others, rest, opensToo, closes⟩ :=
        (agree first last).1 ⟨strays, behind, opens, answers⟩
      obtain ⟨rfl, _, rfl⟩ := opens.unique opensToo
      exact apart last ⟨closes, answers⟩
  · intro given first last
    refine exists_congr fun strays => exists_congr fun behind => and_congr_right fun opens => ?_
    rcases given strays first behind opens with rfl | ⟨noPartner, noAnswer⟩
    · rfl
    · exact iff_of_false (fun answers => exists_closesAt_iff.1 ⟨last, answers⟩ noAnswer)
        fun closes => exists_closesAt_iff.1 ⟨last, closes⟩ noPartner

/-- A text read from an offset has its braces of code in exactly one way. The reader finds the first
opening one of them and the first closing one behind it with as many open in between as there were
strays in front, and the splitter goes on behind that or gives up with the offset. The answer is the
first brace and its partner, or none if there is no such pair, exactly if there are no strays or no
closing brace stands where none or as many as the strays are open. -/
theorem bracePair?_partner_iff (text : List Char) (start : Nat) :
    ∃ braces, (∀ others, Braces start (text.drop start) others ↔ others = braces) ∧
      (∀ first last, bracePair? text start = some (first, last) ↔ IsAnswer braces first last) ∧
      ((∀ first last, bracePair? text start = some (first, last) ↔ IsPair braces first last) ↔
        ∀ strays first behind, Opens braces strays first behind →
          strays = [] ∨ (Avoids 0 behind ∧ Avoids strays.length behind)) ∧
      ∀ title width,
        (∀ first last, IsAnswer braces first last →
          endOfCode text ⟨true, title, width⟩ start = .ok (last + 1)) ∧
        ((¬ ∃ first last, IsAnswer braces first last) →
          endOfCode text ⟨true, title, width⟩ start = .error (.unbalanced start)) := by
  refine ⟨bracesFrom .code start (text.drop start), fun others => braces_iff,
    fun first last => bracePair?_eq_some_iff, ?_, fun title width => ⟨fun first last answers => ?_,
    fun none => ?_⟩⟩
  · simp only [bracePair?_eq_some_iff]
    exact isAnswer_iff_isPair (offset_of_mem_bracesFrom _ _ _).2
  · rw [endOfCode, if_pos rfl, bracePair?_eq_some_iff.2 answers]
  · rw [endOfCode, if_pos rfl]
    cases found : bracePair? text start with
    | none => rfl
    | some answer => exact absurd ⟨_, _, bracePair?_eq_some_iff.1 found⟩ none

/-- A stray brace in front of a pair hides it. -/
theorem bracePair?_stray :
    (∃ braces, Braces 0 ['\x7d', '\x7b', '\x7d'] braces ∧ IsPair braces 1 2) ∧
      bracePair? ['\x7d', '\x7b', '\x7d'] 0 = none := by
  refine ⟨⟨_, .closing (.opening (.closing (.done 3))), [⟨0, false⟩], [], [], ⟨rfl, ?_⟩, .nil⟩,
    by decide⟩
  simp

end Typewright.Source
