import Typewright.Proofs.TypeScript.Comments

/-!
# Splitting text that is made of blocks

A block is a declaration with the comment above it, its lead. Splitting a text made of blocks finds
every declaration with a head that can be read, in order (`Source.isSplit_textOf`). The reader takes
the last opening of a comment for the beginning of a lead, so what stands in front of it there goes
to the alias before it, if there is one (`Source.codeOf`).
-/

namespace Typewright.Source

open Text

/-! ## Leads -/

/-- The text above a declaration: nothing, or lines of a block comment. -/
structure IsLead (lead : List Char) : Prop where
  skips : Skips true lead true
  closed : lead ≠ [] → ['/', '*'] <:+: lead ∧ ['*', '/', '\n'] <:+ lead

/-- The number of characters in front of the last opening of a comment. -/
def opening (lead : List Char) : Nat :=
  (findLast? ['/', '*'] lead).getD 0

/-- A lead from its last opening on. -/
def cut (lead : List Char) : List Char :=
  lead.drop (opening lead)

/-- A lead up to its last opening. -/
def front (lead : List Char) : List Char :=
  lead.take (opening lead)

theorem front_append_cut (lead : List Char) : front lead ++ cut lead = lead :=
  List.take_append_drop _ _

theorem length_front (lead : List Char) : (front lead).length = opening lead := by
  rw [front, List.length_take]
  refine Nat.min_eq_left ?_
  rw [opening]
  cases found : findLast? ['/', '*'] lead with
  | none => exact Nat.zero_le _
  | some offset =>
    have inside := (prefix_of_findLast? found).length_le
    rw [List.length_drop] at inside
    simp only [List.length_cons, List.length_nil] at inside
    rw [Option.getD_some]
    omega

theorem cut_cut (lead : List Char) : cut (cut lead) = cut lead := by
  rw [cut, opening]
  cases found : findLast? ['/', '*'] lead with
  | none => simp [cut, opening, found]
  | some offset => simp [cut, opening, found, findLast?_drop found]

section

variable {lead : List Char} (isLead : IsLead lead)
include isLead

theorem IsLead.exists_opening (inhabited : lead ≠ []) :
    findLast? ['/', '*'] lead = some (opening lead) := by
  cases found : findLast? ['/', '*'] lead with
  | none => exact absurd (isLead.closed inhabited).1 ((findLast?_eq_none_iff (by simp)).1 found)
  | some offset => rw [opening, found, Option.getD_some]

theorem IsLead.cut_cases : (lead = [] ∧ cut lead = []) ∨
    ∃ rest, cut lead = '/' :: '*' :: rest := by
  by_cases inhabited : lead = []
  · subst inhabited
    exact Or.inl ⟨rfl, rfl⟩
  · obtain ⟨rest, shape⟩ := prefix_of_findLast? (isLead.exists_opening inhabited)
    exact Or.inr ⟨rest, shape.symm⟩

theorem IsLead.cut : IsLead (cut lead) := by
  rcases isLead.cut_cases with ⟨_, empty⟩ | ⟨rest, shape⟩
  · rw [empty]
    exact ⟨.nil _, fun inhabited => absurd rfl inhabited⟩
  · constructor
    · have parts := isLead.skips
      rw [← front_append_cut lead] at parts
      obtain ⟨middle, skips⟩ := parts.exists_of_append
      rw [shape] at skips ⊢
      -- a slash is no beginning of a head, so it does not matter whether it begins a line
      intro more
      rw [← skips more, List.cons_append, findHead?, findHead?,
        head?_eq_none (by decide)]
      simp
    · intro _
      have inhabited : lead ≠ [] := by
        rintro rfl
        cases shape
      refine ⟨⟨[], rest, by rw [shape]; rfl⟩, ?_⟩
      rcases List.suffix_or_suffix_of_suffix (isLead.closed inhabited).2
        (List.drop_suffix (opening lead) lead) with inside | short
      · exact inside
      · change Source.cut lead <:+ _ at short
        rw [shape] at short
        simp [List.suffix_cons_iff] at short

/-- Where a lead begins, for the reader: at its last opening. -/
theorem commentStart_lead {before : List Char}
    (ended : ¬ ['/', '*'] <+: (trimEnd before).reverse) (rest : List Char) :
    commentStart (before ++ lead ++ rest) (before.length + lead.length) =
      before.length + opening lead := by
  have taken : (before ++ lead ++ rest).take (before.length + lead.length) = before ++ lead := by
    rw [← List.length_append, List.take_left]
  rw [commentStart, taken]
  simp only [List.isPrefixOf_iff_prefix]
  by_cases inhabited : lead = []
  · subst inhabited
    rw [List.append_nil, if_neg ended]
    rfl
  · have closes : ['/', '*'] <+: (trimEnd (before ++ lead)).reverse := by
      obtain ⟨inner, shape⟩ := (isLead.closed inhabited).2
      have parts : before ++ lead = (before ++ inner ++ ['*']) ++ '/' :: ['\n'] := by
        rw [← shape]
        simp
      have gone : trimEnd ['\n'] = [] := by decide
      rw [parts, trimEnd_append_cons (by decide), gone]
      simp
    rw [if_pos closes, findLast?_append (isLead.exists_opening inhabited), Option.getD_some]

end

/-! ## Blocks -/

/-- What the readers of source text make of a declaration without its lead: no head, an interface
that they find the end of, or an alias that no head begins in. -/
inductive Reads : Option Head → List Char → Prop
  | silent {body : List Char} (skips : Skips true body false) : Reads none body
  | interface {title before inside : List Char}
      (found : ∀ rest, head? (before ++ inside ++ rest) = some ⟨true, title, before.length⟩)
      (closes : ∀ offset rest, ∃ first,
        bracePairFrom? .code none 0 offset (inside ++ rest) = some (first, offset + inside.length - 1))
      (inhabited : inside ≠ []) : Reads (some ⟨true, title, before.length⟩) (before ++ inside)
  | aliased {title before inside : List Char}
      (found : ∀ rest, head? (before ++ inside ++ rest) = some ⟨false, title, before.length⟩)
      (skips : Skips false inside false) :
      Reads (some ⟨false, title, before.length⟩) (before ++ inside)

/-- A declaration with its lead, as the readers of source text see it. -/
structure Block where
  lead : List Char
  body : List Char
  head : Option Head
  isLead : IsLead lead
  begins : ∃ rest, body = 'e' :: rest
  ends : ∃ rest last, body = rest ++ [last] ∧ isBlank last = false ∧ last ≠ '/'
  reads : Reads head body

/-- The text of blocks, each ended by a line feed. -/
def textOf : List Block → List Char
  | [] => []
  | b :: bs => b.lead ++ b.body ++ '\n' :: textOf bs

/-- What stands between an alias and the next lead that is recognised: blocks without a head, and the
front of the next lead. -/
def spill : List Block → List Char
  | [] => []
  | b :: bs => if b.head.isSome then front b.lead else b.lead ++ b.body ++ '\n' :: spill bs

/-- What is left after an alias. -/
def left : List Block → List Char
  | [] => []
  | b :: bs => if b.head.isSome then cut b.lead ++ b.body ++ '\n' :: textOf bs else left bs

/-- The code of a block with a head: its lead from the last opening on, the declaration, and for an
alias what stands in front of the next lead. -/
def codeOf (b : Block) (head : Head) (following : List Block) : List Char :=
  cut b.lead ++ b.body ++ if head.isInterface then [] else trimEnd ('\n' :: spill following)

/-- What splitting the text of blocks gives. -/
def definitionsOf : List Block → List Definition
  | [] => []
  | b :: bs =>
    match b.head with
    | some head => ⟨String.ofList head.title, String.ofList (codeOf b head bs)⟩ :: definitionsOf bs
    | none => definitionsOf bs

theorem definitionsOf_cons {b : Block} {head : Head} (isHead : b.head = some head)
    (bs : List Block) : definitionsOf (b :: bs) =
      ⟨String.ofList head.title, String.ofList (codeOf b head bs)⟩ :: definitionsOf bs := by
  simp [definitionsOf, isHead]

/-- Splitting a text gives certain definitions and does not fail. -/
def IsSplit (text : List Char) (definitions : List Definition) : Prop :=
  (split text).failure = none ∧ (split text).definitions.map (·.1) = definitions

theorem isSplit_of_none {text : List Char} (none : findHead? true text = none) :
    IsSplit text [] := by
  have ended : next? text = .ok Option.none := by
    rw [next?, none]
  rw [IsSplit, split, ended]
  exact ⟨rfl, rfl⟩

theorem isSplit_cons {text rest : List Char} {definition : Definition} {more : List Definition}
    (cuts : next? text = .ok (some (definition, rest))) (shorter : rest.length < text.length)
    (later : IsSplit rest more) : IsSplit text (definition :: more) := by
  obtain ⟨fine, same⟩ := later
  rw [IsSplit, split, cuts]
  simp only [if_pos shorter, fine, List.map_cons, same, and_self]

/-! ## Finding heads -/

/-- A text whose end is no end of a comment. -/
def Ended (text : List Char) : Prop :=
  ¬ ['/', '*'] <+: (trimEnd text).reverse

theorem ended_nil : Ended [] := by
  unfold Ended
  decide

theorem ended_break : Ended ['\n'] := by
  unfold Ended
  decide

theorem Block.ended (b : Block) (before : List Char) : Ended (before ++ b.body ++ ['\n']) := by
  obtain ⟨rest, last, shape, visible, other⟩ := b.ends
  have parts : before ++ b.body = (before ++ rest) ++ last :: [] := by
    rw [shape]
    simp
  have gone : trimEnd [] = [] := rfl
  rw [Ended, trimEnd_append_of_blank (by simp [isBlank]), parts, trimEnd_append_cons visible, gone,
    List.reverse_append, List.reverse_singleton, List.singleton_append, List.cons_prefix_cons]
  exact fun same => other same.1.symm

theorem Reads.head? {head : Head} {body : List Char} (reads : Reads (some head) body)
    (rest : List Char) : Source.head? (body ++ rest) = some head := by
  cases reads with
  | interface found _ _ => exact found rest
  | aliased found _ => exact found rest

/-- A declaration with a head is found after what is passed over. -/
theorem findHead?_block {before : List Char} {b : Block} {head : Head}
    (skips : Skips true before true) (isHead : b.head = some head) (rest : List Char) :
    findHead? true (before ++ (b.body ++ rest)) = some (before.length, head) := by
  have reads := b.reads
  rw [isHead] at reads
  obtain ⟨letters, shape⟩ := b.begins
  have found := reads.head? rest
  rw [shape, List.cons_append] at found
  rw [skips, shape, List.cons_append, findHead?, if_pos rfl, found]
  simp

theorem skips_silent {b : Block} (silent : b.head = none) :
    Skips true (b.lead ++ (b.body ++ ['\n'])) true := by
  have reads := b.reads
  rw [silent] at reads
  cases reads with
  | silent skips => exact b.isLead.skips.append (skips.append (@skips_char '\n' false (by simp)))

/-- The first declaration with a head in the text of blocks, if there is one. -/
theorem textOf_cases (bs : List Block) :
    (findHead? true (textOf bs) = none ∧ spill bs = textOf bs ∧ left bs = []) ∨
      ∃ (before : List Char) (b : Block) (head : Head) (more : List Block),
        b.head = some head ∧ Skips true before true ∧
        textOf bs = before ++ b.lead ++ (b.body ++ '\n' :: textOf more) ∧
        spill bs = before ++ front b.lead ∧
        left bs = cut b.lead ++ (b.body ++ '\n' :: textOf more) ∧
        ∀ text, Ended text → Ended (text ++ before) := by
  induction bs with
  | nil => exact Or.inl ⟨rfl, rfl, rfl⟩
  | cons b bs ih =>
    cases isHead : b.head with
    | some head =>
      refine Or.inr ⟨[], b, head, bs, isHead, .nil _, ?_, ?_, ?_, fun text ended => ?_⟩
      · rw [textOf, List.nil_append, List.append_assoc]
      · simp [spill, isHead]
      · simp [left, isHead]
      · rwa [List.append_nil]
    | none =>
      have silent := skips_silent isHead
      have text : textOf (b :: bs) = b.lead ++ (b.body ++ ['\n']) ++ textOf bs := by
        rw [textOf]
        simp
      have spilt : spill (b :: bs) = b.lead ++ (b.body ++ ['\n']) ++ spill bs := by
        simp [spill, isHead]
      have rest : left (b :: bs) = left bs := by simp [left, isHead]
      rcases ih with ⟨absent, all, nothing⟩ |
        ⟨before, next, head, more, isNext, skips, parts, front, remains, ended⟩
      · refine Or.inl ⟨?_, by rw [text, spilt, all], by rw [rest, nothing]⟩
        rw [text, silent, absent]
        rfl
      · refine Or.inr ⟨b.lead ++ (b.body ++ ['\n']) ++ before, next, head, more, isNext,
          silent.append skips, ?_, ?_, by rw [rest, remains], fun other _ => ?_⟩
        · rw [text, parts]
          simp only [List.append_assoc]
        · rw [spilt, front]
          simp only [List.append_assoc]
        · rw [← List.append_assoc]
          refine ended _ ?_
          rw [← List.append_assoc, ← List.append_assoc]
          exact b.ended (other ++ b.lead)

theorem textOf_eq (bs : List Block) : textOf bs = spill bs ++ left bs := by
  rcases textOf_cases bs with ⟨_, all, nothing⟩ |
    ⟨before, b, head, more, _, _, parts, front, remains, _⟩
  · rw [all, nothing, List.append_nil]
  · rw [front, remains, parts]
    conv_lhs => rw [← front_append_cut b.lead]
    simp only [List.append_assoc]

/-! ## Cutting off a block -/

theorem drop_take_middle {α : Type} (first middle last : List α) :
    ((first ++ middle ++ last).take (first.length + middle.length)).drop first.length = middle := by
  rw [← List.length_append, List.take_left, List.drop_left]

section

variable {b : Block} {head : Head} {pre lead : List Char} (bs : List Block)

/-- The code of a block: nothing blank stands at its beginning, and the declaration does not end in
blanks. -/
theorem trim_code (isLead : IsLead lead) (b : Block) {after : List Char} :
    trim (cut lead ++ b.body ++ after) = cut lead ++ b.body ++ trimEnd after := by
  obtain ⟨rest, last, shape, visible, _⟩ := b.ends
  obtain ⟨letters, begins⟩ := b.begins
  have first : (cut lead ++ b.body ++ after).dropWhile isBlank = cut lead ++ b.body ++ after := by
    rcases isLead.cut_cases with ⟨_, empty⟩ | ⟨inner, comment⟩
    · rw [empty, begins]
      rfl
    · rw [comment]
      rfl
  rw [trim, first, shape, ← List.append_assoc, List.append_assoc, List.singleton_append,
    trimEnd_append_cons visible]
  simp

/-- The end of an interface is the brace that closes it. -/
theorem endOfCode_interface {before inside : List Char} {title : List Char} (text : List Char)
    (closes : ∀ offset rest, ∃ first,
      bracePairFrom? .code none 0 offset (inside ++ rest) = some (first, offset + inside.length - 1))
    (inhabited : inside ≠ []) (rest : List Char) :
    endOfCode (text ++ (before ++ inside ++ rest)) ⟨true, title, before.length⟩
      (text.length + before.length) = .ok (text.length + (before ++ inside).length) := by
  have ahead : (text ++ (before ++ inside ++ rest)).drop (text.length + before.length) =
      inside ++ rest := by
    rw [List.append_assoc before, ← List.append_assoc text, ← List.length_append, List.drop_left]
  obtain ⟨first, closed⟩ := closes (text.length + before.length) rest
  have size := List.length_pos_iff.2 inhabited
  simp only [endOfCode, bracePair?, ahead, closed, if_true, List.length_append]
  congr 1
  omega

/-- The end of an alias is the beginning of the next lead, or the end of the text. -/
theorem endOfCode_alias {before inside : List Char} {title : List Char} (text : List Char)
    (isBody : b.body = before ++ inside) (skips : Skips false inside false) :
    endOfCode (text ++ (before ++ inside ++ '\n' :: textOf bs)) ⟨false, title, before.length⟩
      (text.length + before.length) =
      .ok (text.length + (before ++ inside).length + 1 + (spill bs).length) := by
  have ahead : (text ++ (before ++ inside ++ '\n' :: textOf bs)).drop
      (text.length + before.length) = inside ++ ['\n'] ++ textOf bs := by
    rw [List.append_assoc before, ← List.append_assoc text, ← List.length_append, List.drop_left]
    simp
  have toLine : Skips false (inside ++ ['\n']) true :=
    skips.append (@skips_char '\n' false (by simp))
  simp only [endOfCode, ahead, toLine (textOf bs), Bool.false_eq_true, if_false]
  rcases textOf_cases bs with ⟨absent, all, _⟩ |
    ⟨first, next, head, more, isNext, firstSkips, parts, front, _, firstEnded⟩
  · rw [absent, all]
    simp only [Option.map_none, List.length_append, List.length_cons]
    congr 1
    omega
  · have found := findHead?_block (firstSkips.append next.isLead.skips) isNext ('\n' :: textOf more)
    have ended : Ended (text ++ (before ++ inside) ++ ['\n'] ++ first) := by
      refine firstEnded _ ?_
      rw [← isBody]
      exact b.ended text
    have start := commentStart_lead next.isLead ended (next.body ++ '\n' :: textOf more)
    rw [parts, found, front]
    simp only [Option.map_some]
    have whole : text ++ (before ++ inside ++ '\n' ::
        (first ++ next.lead ++ (next.body ++ '\n' :: textOf more))) =
        text ++ (before ++ inside) ++ ['\n'] ++ first ++ next.lead ++
          (next.body ++ '\n' :: textOf more) := by
      simp
    have place : text.length + before.length + ((first ++ next.lead).length +
        (inside ++ ['\n']).length) =
        (text ++ (before ++ inside) ++ ['\n'] ++ first).length + next.lead.length := by
      simp only [List.length_append, List.length_cons, List.length_nil]
      omega
    rw [whole, place, start]
    simp only [List.length_append, List.length_cons, List.length_nil, length_front]
    congr 1
    omega

/-- Cutting off a block with a head: what it gives, and what is left. -/
theorem next?_block (isHead : b.head = some head) (isLead : IsLead lead)
    (same : cut lead = cut b.lead) (skips : Skips true pre true) (ended : Ended pre) :
    next? (pre ++ lead ++ (b.body ++ '\n' :: textOf bs)) =
      .ok (some (⟨String.ofList head.title, String.ofList (codeOf b head bs)⟩,
        if head.isInterface then '\n' :: textOf bs else left bs)) := by
  have found := findHead?_block (skips.append isLead.skips) isHead ('\n' :: textOf bs)
  have start := commentStart_lead isLead ended (b.body ++ '\n' :: textOf bs)
  rw [← List.length_append, ← length_front, ← List.length_append] at start
  -- whatever follows the declaration up to its end is trimmed
  have cuts : ∀ middle last, '\n' :: textOf bs = middle ++ last →
      endOfCode (pre ++ lead ++ (b.body ++ '\n' :: textOf bs)) head
        ((pre ++ lead).length + head.width) =
        .ok ((pre ++ lead).length + b.body.length + middle.length) →
      next? (pre ++ lead ++ (b.body ++ '\n' :: textOf bs)) =
        .ok (some (⟨String.ofList head.title,
          String.ofList (cut b.lead ++ b.body ++ trimEnd middle)⟩, last)) := by
    intro middle last parts stop
    have regrouped : pre ++ lead ++ (b.body ++ (middle ++ last)) =
        (pre ++ front lead) ++ (cut lead ++ b.body ++ middle) ++ last := by
      conv_lhs => rw [← front_append_cut lead]
      simp only [List.append_assoc]
    have size : (pre ++ lead).length + b.body.length + middle.length =
        (pre ++ front lead).length + (cut lead ++ b.body ++ middle).length := by
      conv_lhs => rw [← front_append_cut lead]
      simp only [List.length_append]
      omega
    rw [next?, found]
    simp only [stop, start]
    rw [size, parts, regrouped]
    change Except.ok _ = _
    rw [drop_take_middle, trim_code isLead, same, ← List.length_append, List.drop_left]
  have reads := b.reads
  rw [isHead] at reads
  generalize shape : b.body = body at reads
  cases reads with
  | @interface title before inside _ closes inhabited =>
    rw [← shape]
    refine cuts [] ('\n' :: textOf bs) rfl ?_
    rw [shape]
    exact endOfCode_interface (pre ++ lead) closes inhabited _
  | @aliased title before inside _ insideSkips =>
    rw [← shape]
    refine cuts ('\n' :: spill bs) (left bs) (by rw [textOf_eq]; rfl) ?_
    have stop := @endOfCode_alias b bs before inside title (pre ++ lead) shape insideSkips
    rw [shape, stop, List.length_cons]
    congr 1
    omega

end

/-- Splitting the text of blocks, also with something that is passed over in front, gives the blocks
with a head. -/
theorem isSplit_textOf (bs : List Block) :
    (∀ pre, Skips true pre true → Ended pre → IsSplit (pre ++ textOf bs) (definitionsOf bs)) ∧
      IsSplit (left bs) (definitionsOf bs) := by
  induction bs with
  | nil =>
    refine ⟨fun pre skips _ => isSplit_of_none ?_, isSplit_of_none rfl⟩
    rw [textOf, skips]
    rfl
  | cons b bs ih =>
    cases isHead : b.head with
    | none =>
      have rest : left (b :: bs) = left bs := by simp [left, isHead]
      have same : definitionsOf (b :: bs) = definitionsOf bs := by
        simp [definitionsOf, isHead]
      rw [same, rest]
      refine ⟨fun pre skips _ => ?_, ih.2⟩
      have regrouped : pre ++ textOf (b :: bs) =
          pre ++ (b.lead ++ (b.body ++ ['\n'])) ++ textOf bs := by
        rw [textOf]
        simp
      rw [regrouped]
      refine ih.1 _ (skips.append (skips_silent isHead)) ?_
      rw [← List.append_assoc, ← List.append_assoc]
      exact b.ended (pre ++ b.lead)
    | some head =>
      have same := definitionsOf_cons isHead bs
      have both : ∀ pre lead, IsLead lead → cut lead = cut b.lead → Skips true pre true →
          Ended pre → IsSplit (pre ++ lead ++ (b.body ++ '\n' :: textOf bs))
            (definitionsOf (b :: bs)) := by
        intro pre lead isLead isCut skips ended
        rw [same]
        refine isSplit_cons (next?_block bs isHead isLead isCut skips ended) ?_ ?_
        · obtain ⟨letters, begins⟩ := b.begins
          have size := congrArg List.length (textOf_eq bs)
          rw [List.length_append] at size
          split <;> simp only [begins, List.length_append, List.length_cons] <;> omega
        · split
          · exact ih.1 ['\n'] (@skips_char '\n' true (by decide)) ended_break
          · exact ih.2
      refine ⟨fun pre skips ended => ?_, ?_⟩
      · rw [textOf, List.append_assoc, ← List.append_assoc]
        exact both pre b.lead b.isLead rfl skips ended
      · have rest : left (b :: bs) = [] ++ cut b.lead ++ (b.body ++ '\n' :: textOf bs) := by
          simp [left, isHead]
        rw [rest]
        exact both [] (cut b.lead) b.isLead.cut (cut_cut _) (.nil _) ended_nil

/-! ## Blocks that are given back -/

/-- The title that is read of a block. -/
def titleOf (b : Block) : List Char :=
  (b.head.map Head.title).getD []

/-- If all blocks have heads, splitting gives back every one of them, with its lead, exactly if no
lead has a second opening. -/
theorem definitionsOf_eq_iff {bs : List Block} (heads : ∀ b ∈ bs, b.head.isSome = true) :
    definitionsOf bs =
        bs.map (fun b => ⟨String.ofList (titleOf b), String.ofList (b.lead ++ b.body)⟩) ↔
      ∀ b ∈ bs, front b.lead = [] := by
  induction bs with
  | nil => simp [definitionsOf]
  | cons b bs ih =>
    have later := ih fun b member => heads b (List.mem_cons_of_mem _ member)
    obtain ⟨head, isHead⟩ := Option.isSome_iff_exists.1 (heads b List.mem_cons_self)
    have title : titleOf b = head.title := by
      rw [titleOf, isHead]
      rfl
    have first := definitionsOf_cons isHead bs
    rw [← title] at first
    rw [first, List.map_cons, List.cons_eq_cons, later, List.forall_mem_cons]
    refine and_congr_left fun none => ?_
    have nothing : spill bs = [] := by
      cases bs with
      | nil => rfl
      | cons next bs =>
        rw [spill, if_pos (heads next (by simp)), none next List.mem_cons_self]
    have blank : trimEnd ['\n'] = [] := by decide
    have code : codeOf b head bs = cut b.lead ++ b.body := by
      rw [codeOf, nothing, blank]
      simp
    have parts := front_append_cut b.lead
    rw [code, Definition.mk.injEq]
    constructor
    · rintro ⟨_, same⟩
      have whole := List.append_cancel_right (String.ofList_injective same)
      rw [whole] at parts
      exact List.append_left_eq_self.1 parts
    · intro empty
      rw [empty, List.nil_append] at parts
      exact ⟨rfl, by rw [parts]⟩

/-- The titles that splitting gives. -/
theorem titles_definitionsOf (bs : List Block) :
    (definitionsOf bs).map Definition.title =
      (bs.filterMap Block.head).map fun head => String.ofList head.title := by
  induction bs with
  | nil => rfl
  | cons b bs ih =>
    cases isHead : b.head with
    | none => simp [definitionsOf, isHead, ih]
    | some head => simp [definitionsOf_cons isHead, isHead, ih]

end Typewright.Source
