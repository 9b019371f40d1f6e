import Typewright.Proofs.Compile.Positions
import Typewright.Proofs.Document.Renumbering

/-!
# Compilations in lockstep

Two compilations of the same schemas, under other numbers or with other functions for the schemas
inside, take the same steps. A relation between steps that every way of putting steps together keeps
(`Compile.Lockstep`) therefore holds between the functions for the parts of a schema as soon as it
holds between the functions for the schemas inside (`Lockstep.written`, `Lockstep.body`), and
between steps from a value as soon as it holds between the ways of asking for a name
(`Lockstep.stepBy`).

What the two read of a schema is the same up to the numbers of containers (`Compile.Alike`).
-/

namespace Typewright.Compile

/-! ## Reading under other numbers -/

section

variable {g h : Graph} {f : Nat → Nat}

@[simp]
theorem literal_renumber (f : Nat → Nat) (v : Value) : literal (v.renumber f) = literal v := by
  cases v <;> rfl

@[simp]
theorem isLongInteger_renumber (f : Nat → Nat) (v : Value) :
    (v.renumber f).isLongInteger = v.isLongInteger := by
  cases v <;> rfl

theorem bound?_renumber (f : Nat → Nat) (v : Option Value) :
    bound? (v.map (Value.renumber f)) = bound? v := by
  rcases v with _ | s | id
  · rfl
  · rfl
  · rfl

@[simp]
theorem isInterface_renumber (f : Nat → Nat) (entries : Entries) :
    isInterface (entries.renumber f) = isInterface entries := by
  unfold isInterface
  have others : ["$ref", "enum", "const", "allOf", "anyOf", "oneOf", "tsType"].any
      (entries.renumber f).has =
      ["$ref", "enum", "const", "allOf", "anyOf", "oneOf", "tsType"].any entries.has := by
    simp
  rw [others, Entries.get?_renumber, Entries.has_renumber, Entries.has_renumber]
  split
  · rfl
  · rcases entries.get? "type" with _ | s | id
    · rfl
    · cases s <;> rfl
    · rfl

variable (renumbers : g.Renumbers h f)
include renumbers

theorem commentOf_renumber (entries : Entries) :
    commentOf h (entries.renumber f) = commentOf g entries := by
  have text : ∀ v : Option Value, (v.map (Value.renumber f)).bind Value.str? = v.bind Value.str? := by
    intro v
    cases v <;> simp
  have truth : ∀ v : Option Value,
      (v.map (Value.renumber f)).map h.isTruthy = v.map g.isTruthy := by
    intro v
    cases v <;> simp [renumbers.isTruthy]
  simp only [commentOf, Entries.get?_renumber, text, truth]

theorem elements_renumber (v : Value) :
    elements h (v.renumber f) = (elements g v).map (List.map (Value.renumber f)) := by
  unfold elements
  rw [renumbers.node?]
  cases v with
  | scalar s =>
    cases s with
    | str s => simp [Graph.node?, Except.map, Value.str]
    | bytes bs => simp [Graph.node?, Except.map]
    | _ => rfl
  | node id =>
    rcases g.node? (.node id) with _ | entries | items
    · rfl
    · simp [Node.renumber, Entries.renumber, Except.map]
    · rfl

theorem requiredKeys_renumber (entries : Entries) :
    requiredKeys h (entries.renumber f) = requiredKeys g entries := by
  unfold requiredKeys
  rw [Entries.get?_renumber]
  cases entries.get? "required" with
  | none => rfl
  | some v =>
    simp only [Option.map_some, renumbers.isTruthy, elements_renumber renumbers]
    split
    · cases elements g v with
      | error e => rfl
      | ok values =>
        change (values.map (Value.renumber f)).mapM _ = values.mapM _
        rw [List.mapM_map]
        congr 1
        funext value
        cases value <;> rfl
    · rfl

theorem entriesUnder_renumber (entries : Entries) (key : String) :
    entriesUnder h (entries.renumber f) key =
      (entriesUnder g entries key).map (Entries.renumber f) := by
  unfold entriesUnder
  rw [Entries.get?_renumber]
  cases entries.get? key with
  | none => rfl
  | some v =>
    simp only [Option.map_some, renumbers.entries?, renumbers.isTruthy]
    cases g.entries? v with
    | some inside => rfl
    | none =>
      simp only [Option.map_none]
      split <;> rfl

end

/-- Two jobs that read the same in a schema under other numbers. -/
structure ReadAlike (job other : Job) (f : Nat → Nat) : Prop where
  graph : job.graph.Renumbers other.graph f
  options : other.options = job.options
  shown : ∀ v, Display.value other.graph (v.renumber f) = Display.value job.graph v
  long : ∀ v, Display.hasLongInteger other.graph (v.renumber f) = Display.hasLongInteger job.graph v

/-- Two jobs for one schema under other numbers. -/
structure Alike (job other : Job) (f : Nat → Nat) : Prop extends ReadAlike job other f where
  root : other.root = f job.root

theorem Alike.refl (job : Job) : Alike job job id :=
  ⟨⟨.refl job.graph, rfl, fun v => by rw [Value.renumber_id], fun v => by rw [Value.renumber_id]⟩,
    rfl⟩

namespace ReadAlike

variable {job other : Job} {f : Nat → Nat} (alike : ReadAlike job other f)
include alike

theorem propertyHead (required : List Scalar) (key : Scalar) (v : Value) :
    other.propertyHead required key (v.renumber f) = job.propertyHead required key v := by
  unfold Job.propertyHead
  rw [alike.graph.entries?]
  cases key with
  | str name =>
    cases job.graph.entries? v with
    | none => rfl
    | some entries => simp [commentOf_renumber alike.graph]
  | _ => rfl

theorem listUnder? (entries : Entries) (key : String) :
    other.listUnder? (entries.renumber f) key =
      (job.listUnder? entries key).map (List.map (Value.renumber f)) :=
  alike.graph.bind_items? entries key

theorem enumMembers (names values : List Value) :
    other.enumMembers (names.map (Value.renumber f)) (values.map (Value.renumber f)) =
      job.enumMembers names values := by
  simp [Job.enumMembers, List.zip_map, alike.shown]

theorem hasLongMember (names values : List Value) :
    other.hasLongMember (names.map (Value.renumber f)) (values.map (Value.renumber f)) =
      job.hasLongMember names values := by
  simp [Job.hasLongMember, List.zip_map, Function.comp_def, alike.long]

theorem titleName (entries : Entries) (standIn : String) :
    other.titleName (entries.renumber f) standIn = job.titleName entries standIn := by
  unfold Job.titleName
  rw [Entries.get?_renumber]
  cases entries.get? "title" with
  | none => rfl
  | some v =>
    cases v with
    | scalar s => cases s <;> rfl
    | node id =>
      have same := alike.graph.isTruthy (.node id)
      rw [Value.renumber_node] at same
      simp [same]

end ReadAlike

/-! ## Relations between steps -/

/-- A relation between steps of compilations that putting steps together keeps. -/
structure Lockstep where
  related : ∀ {α : Type}, Compiling α → Compiling α → Prop
  pure : ∀ {α : Type} (a : α), related (pure a) (pure a)
  throw : ∀ {α : Type} (e : Error), related (throw e : Compiling α) (throw e)
  bind : ∀ {α β : Type} {x y : Compiling α} {next other : α → Compiling β}, related x y →
    (∀ a, related (next a) (other a)) → related (x >>= next) (y >>= other)

/-- How the name of a schema is asked for: the schemas around it, the word that stands in for a
missing title, the schema and its entries. -/
abbrev Ask := List Nat → String → Nat → Entries → Compiling String

/-- A step from a value that asks for names in a given way. -/
def Job.stepBy (job : Job) (ask : Ask) (inner : Inner) (around : List Nat) (named : Bool)
    (v : Value) : Compiling TypeExpr := do
  let (v, hopped) ← follow job.graph (.node job.root) v
  match v, job.graph.entries? v with
  | .scalar (.bool true), _ => return .unknown
  | .scalar (.bool false), _ => return .never
  | .node schema, some entries =>
    if entries.isEmpty then return .unknown
    else if (named || hopped) && (((entries.get? "title").bind Value.str?).isSome) then
      return .name (← ask around "" schema entries)
    else if around.contains schema then
      warn .unnamedRecursion
      return .unknown
    else job.written inner (schema :: around) entries
  | _, _ => return .unknown

/-- A step from a value that finds out in a given way where references lead. -/
def Job.stepVia (job : Job) (chase : Value → Except Error (Value × Bool)) (ask : Ask)
    (inner : Inner) (around : List Nat) (named : Bool) (v : Value) : Compiling TypeExpr := do
  let (v, hopped) ← chase v
  match v, job.graph.entries? v with
  | .scalar (.bool true), _ => return .unknown
  | .scalar (.bool false), _ => return .never
  | .node schema, some entries =>
    if entries.isEmpty then return .unknown
    else if (named || hopped) && (((entries.get? "title").bind Value.str?).isSome) then
      return .name (← ask around "" schema entries)
    else if around.contains schema then
      warn .unnamedRecursion
      return .unknown
    else job.written inner (schema :: around) entries
  | _, _ => return .unknown

theorem Job.stepBy_eq_stepVia (job : Job) (ask : Ask) :
    job.stepBy ask = job.stepVia (follow job.graph (.node job.root)) ask := rfl

/-- A compilation asks by declaring. -/
theorem Job.step_eq_stepBy (job : Job) (inner : Inner) :
    job.step inner = job.stepBy (job.declare inner) inner := rfl

namespace Lockstep

variable (lockstep : Lockstep)

/-- The functions for the schemas inside are related. -/
def Inside (f : Nat → Nat) (inner other : Inner) : Prop :=
  ∀ around named v,
    lockstep.related (inner around named v) (other (around.map f) named (v.renumber f))

/-- The functions for the schemas inside are related at the given positions of a schema. -/
def Asks (f : Nat → Nat) (inner within : Inner) (around beyond : List Nat)
    (positions : List Value) : Prop :=
  ∀ v ∈ positions, lockstep.related (inner around true v) (within beyond true (v.renumber f))

variable {lockstep}

theorem Inside.asks {f : Nat → Nat} {inner within : Inner} (inside : lockstep.Inside f inner within)
    (around : List Nat) (positions : List Value) :
    lockstep.Asks f inner within around (around.map f) positions :=
  fun v _ => inside around true v

theorem Asks.mono {f : Nat → Nat} {inner within : Inner} {around beyond : List Nat}
    {positions fewer : List Value} (asks : lockstep.Asks f inner within around beyond positions)
    (subset : fewer ⊆ positions) : lockstep.Asks f inner within around beyond fewer :=
  fun v member => asks v (subset member)

/-- What is read without a draft may differ in numbers. -/
theorem lift_bind {α α' β : Type} {x : Except Error α} {y : Except Error α'} (r : α → α')
    (same : y = x.map r) {next : α → Compiling β} {other : α' → Compiling β}
    (each : ∀ a, x = .ok a → lockstep.related (next a) (other (r a))) :
    lockstep.related (liftM x >>= next) (liftM y >>= other) := by
  subst same
  cases x with
  | error e => exact lockstep.throw e
  | ok a => exact each a rfl

/-- What both read without a draft. -/
theorem lift {α β : Type} {x : Except Error α} {next other : α → Compiling β}
    (each : ∀ a, x = .ok a → lockstep.related (next a) (other a)) :
    lockstep.related (liftM x >>= next) (liftM x >>= other) :=
  lift_bind id (by cases x <;> rfl) each

theorem mapM {α α' β : Type} (r : α → α') {step : α → Compiling β} {other : α' → Compiling β}
    (l : List α) (each : ∀ x ∈ l, lockstep.related (step x) (other (r x))) :
    lockstep.related (l.mapM step) ((l.map r).mapM other) := by
  induction l with
  | nil => exact lockstep.pure []
  | cons x l ih =>
    rw [List.map_cons, List.mapM_cons, List.mapM_cons]
    refine lockstep.bind (each x List.mem_cons_self) fun y => ?_
    exact lockstep.bind (ih fun z member => each z (List.mem_cons_of_mem _ member))
      fun ys => lockstep.pure (y :: ys)

theorem forIn {α : Type} {step other : α → PUnit → Compiling (ForInStep PUnit)} (l : List α)
    (each : ∀ x ∈ l, lockstep.related (step x ⟨⟩) (other x ⟨⟩)) :
    lockstep.related (forIn l ⟨⟩ step) (forIn l ⟨⟩ other) := by
  induction l with
  | nil => exact lockstep.pure _
  | cons x l ih =>
    rw [List.forIn_cons, List.forIn_cons]
    refine lockstep.bind (each x List.mem_cons_self) fun round => ?_
    cases round with
    | done => exact lockstep.pure _
    | yield => exact ih fun z member => each z (List.mem_cons_of_mem _ member)

section

variable {job other : Job} {f : Nat → Nat} {inner within : Inner}
variable {around beyond : List Nat} {entries : Entries}

theorem listed {members : List Value}
    (asks : lockstep.Asks f inner within around beyond members) :
    lockstep.related (members.mapM (inner around true))
      ((members.map (Value.renumber f)).mapM (within beyond true)) :=
  mapM (Value.renumber f) members asks

theorem union {members : List Value} (asks : lockstep.Asks f inner within around beyond members) :
    lockstep.related
      (members.mapM (inner around true) >>= fun ts => Pure.pure (TypeExpr.union ts))
      ((members.map (Value.renumber f)).mapM (within beyond true) >>=
        fun ts => Pure.pure (TypeExpr.union ts)) :=
  lockstep.bind (listed asks) fun _ => lockstep.pure _

variable (alike : ReadAlike job other f)
include alike

theorem indexTypes
    (asks : lockstep.Asks f inner within around beyond (job.indexPositions entries)) :
    lockstep.related (job.indexTypes inner around entries)
      (other.indexTypes within beyond (entries.renumber f)) := by
  unfold Job.indexTypes
  refine lift_bind (Entries.renumber f) (entriesUnder_renumber alike.graph entries _)
    fun patterns given => ?_
  refine lockstep.bind (mapM _ patterns fun entry member => asks entry.2
    (mem_indexPositions_of_pattern given (List.mem_map_of_mem member))) fun types => ?_
  rw [alike.options, Entries.get?_renumber]
  have finish : ∀ ts : List TypeExpr, lockstep.related (Pure.pure (if ts.isEmpty then []
      else if job.options.strictIndexSignatures then [TypeExpr.union ts, .undefined] else ts))
      (Pure.pure (if ts.isEmpty then []
        else if job.options.strictIndexSignatures then [TypeExpr.union ts, .undefined] else ts)) :=
    fun ts => lockstep.pure _
  have closed := lockstep.bind (lockstep.pure types) finish
  have opened := lockstep.bind (lockstep.pure (types ++ [.unknown])) finish
  rcases held : entries.get? "additionalProperties" with _ | s | id
  · exact opened
  · rcases s with _ | (_ | _) | _ | _ | _ | _ | _ | _ | _
    case bool.true => exact opened
    all_goals exact closed
  · have isMapping := alike.graph.isMapping (.node id)
    rw [Value.renumber_node] at isMapping
    simp only [Option.map_some, Value.renumber_node, isMapping]
    split
    · next isMapping =>
      refine lockstep.bind (asks (.node id) (mem_indexPositions_of_additional held isMapping))
        fun t => ?_
      exact lockstep.bind (lockstep.pure _) finish
    · exact closed

/-- The object types of a schema. -/
theorem object
    (asks : lockstep.Asks f inner within around beyond (job.objectPositions entries)) :
    lockstep.related (job.object inner around entries)
      (other.object within beyond (entries.renumber f)) := by
  have indexAsks : lockstep.Asks f inner within around beyond (job.indexPositions entries) :=
    asks.mono (List.subset_append_right _ _)
  unfold Job.object
  rw [requiredKeys_renumber alike.graph]
  refine lift fun required _ => ?_
  refine lift_bind (Entries.renumber f) (entriesUnder_renumber alike.graph entries _)
    fun declared given => ?_
  refine lockstep.bind (mapM _ declared fun entry member => ?_) fun properties =>
    lockstep.bind (indexTypes alike indexAsks) fun index => lockstep.pure _
  dsimp only [id]
  rw [alike.propertyHead]
  refine lift fun head _ => ?_
  have position := mem_objectPositions_of_property given (List.mem_map_of_mem member)
  exact lockstep.bind (asks entry.2 position) fun t => lockstep.pure _

/-- The array or tuple types of a schema. -/
theorem array
    (asks : lockstep.Asks f inner within around beyond (job.arrayPositions entries)) :
    lockstep.related (job.array inner around entries)
      (other.array within beyond (entries.renumber f)) := by
  have read : ((entries.renumber f).get? "items").getD .null =
      ((entries.get? "items").getD .null).renumber f := by
    rw [Entries.get?_renumber]
    cases entries.get? "items" <;> rfl
  unfold Job.arrayPositions at asks
  unfold Job.array
  dsimp only at asks ⊢
  rw [read, alike.graph.items?, alike.options]
  cases several : job.graph.items? ((entries.get? "items").getD .null) with
  | some members =>
    rw [several] at asks
    dsimp only at asks
    rw [Entries.get?_renumber]
    have further : ∀ additional : Option Value,
        lockstep.Asks f inner within around beyond (members ++ [additional.getD (.bool true)]) →
        lockstep.related
          (members.mapM (inner around true) >>= fun types =>
            inner around true (additional.getD (.bool true)) >>= fun t =>
              Pure.pure (TypeExpr.tuple types [t]))
          ((members.map (Value.renumber f)).mapM (within beyond true) >>= fun types =>
            within beyond true ((additional.map (Value.renumber f)).getD (.bool true)) >>= fun t =>
              Pure.pure (TypeExpr.tuple types [t])) := by
      intro additional both
      refine lockstep.bind (listed (both.mono (List.subset_append_left _ _))) fun types => ?_
      have last := both (additional.getD (.bool true)) (List.mem_append_right _ List.mem_cons_self)
      refine lockstep.bind ?_ fun t => lockstep.pure _
      cases additional <;> exact last
    rcases held : entries.get? "additionalItems" with _ | s | id
    · rw [held] at asks
      exact further none asks
    · rw [held] at asks
      rcases s with _ | (_ | _) | _ | _ | _ | _ | _ | _ | _
      case bool.false => exact lockstep.bind (listed asks) fun types => lockstep.pure _
      all_goals exact further (some _) asks
    · rw [held] at asks
      exact further (some (.node id)) asks
  | none =>
    rw [several] at asks
    have asked := asks ((entries.get? "items").getD .null) List.mem_cons_self
    generalize (entries.get? "items").getD .null = items at asked
    have finish : ∀ t : TypeExpr, lockstep.related
        (if job.options.ignoreBounds then Pure.pure (.array t)
          else Pure.pure (boundedArray t (bound? (entries.get? "minItems"))
            (bound? (entries.get? "maxItems"))))
        (if job.options.ignoreBounds then Pure.pure (.array t)
          else Pure.pure (boundedArray t (bound? ((entries.renumber f).get? "minItems"))
            (bound? ((entries.renumber f).get? "maxItems")))) := by
      intro t
      rw [Entries.get?_renumber, Entries.get?_renumber, bound?_renumber, bound?_renumber]
      split <;> exact lockstep.pure _
    have same : items.renumber f = .null ↔ items = .null := Value.renumber_eq_scalar_iff f
    by_cases missing : items = .null
    · rw [if_pos missing, if_pos (same.2 missing)]
      exact lockstep.bind (lockstep.pure _) finish
    · rw [if_neg missing, if_neg (mt same.1 missing)]
      exact lockstep.bind asked finish

theorem typed {type : Value}
    (asks : lockstep.Asks f inner within around beyond (job.typedPositions entries type)) :
    lockstep.related (job.typed inner around entries type)
      (other.typed within beyond (entries.renumber f) (type.renumber f)) := by
  cases type with
  | node id => exact lockstep.throw _
  | scalar word =>
    unfold Job.typed
    simp only [Value.renumber_scalar, Entries.has_renumber]
    split
    · exact lockstep.pure _
    · next other =>
      rw [typedPositions_of_not_primitive (by rintro s rfl; exact other)] at asks
      split
      · next isArray =>
        rw [if_pos isArray] at asks
        exact array alike asks
      · next other =>
        rw [if_neg other] at asks
        split
        · next isObject =>
          rw [if_pos isObject] at asks
          exact object alike asks
        · next other =>
          rw [if_neg other] at asks
          split
          · next hasItems =>
            rw [if_pos hasItems] at asks
            exact array alike asks
          · exact lockstep.pure _

/-- The type of a schema that is written out. -/
theorem written (asks : lockstep.Asks f inner within around beyond (job.positions entries)) :
    lockstep.related (job.written inner around entries)
      (other.written within beyond (entries.renumber f)) := by
  unfold Job.positions at asks
  unfold Job.written
  rw [Entries.get?_renumber]
  cases raw : entries.get? "tsType" with
  | some v =>
    dsimp only [Option.map_some]
    rw [alike.shown, alike.long]
    exact lift fun _ _ => lockstep.pure _
  | none =>
  dsimp only [Option.map_none]
  rw [Entries.get?_renumber]
  cases constant : entries.get? "const" with
  | some v =>
    dsimp only [Option.map_some]
    rw [literal_renumber, isLongInteger_renumber]
    exact lift fun _ _ => lockstep.pure _
  | none =>
  dsimp only [Option.map_none]
  rw [alike.listUnder?]
  cases choices : job.listUnder? entries "enum" with
  | some values =>
    simp only [Option.map_some, List.map_map, List.any_map, Function.comp_def, literal_renumber,
      isLongInteger_renumber]
    exact lift fun _ _ => lockstep.pure _
  | none =>
  dsimp only [Option.map_none]
  rw [raw, constant, choices] at asks
  dsimp only at asks
  rw [alike.listUnder?]
  cases all : job.listUnder? entries "allOf" with
  | some members =>
    rw [all] at asks
    dsimp only [Option.map_some] at asks ⊢
    rw [Entries.has_renumber]
    split
    · next hasOwn =>
      rw [if_pos hasOwn] at asks
      refine lockstep.bind (listed (asks.mono (List.subset_append_left _ _))) fun parts => ?_
      refine lockstep.bind (object alike (asks.mono (List.subset_append_right _ _))) fun own => ?_
      exact lockstep.bind (lockstep.pure _) fun own => lockstep.pure _
    · next bare =>
      rw [if_neg bare] at asks
      refine lockstep.bind (listed asks) fun parts => ?_
      exact lockstep.bind (lockstep.pure _) fun own => lockstep.pure _
  | none =>
  rw [all] at asks
  dsimp only [Option.map_none] at asks ⊢
  rw [alike.listUnder?]
  cases any : job.listUnder? entries "anyOf" with
  | some members =>
    rw [any] at asks
    exact union asks
  | none =>
  rw [any] at asks
  dsimp only [Option.map_none] at asks ⊢
  rw [alike.listUnder?]
  cases one : job.listUnder? entries "oneOf" with
  | some members =>
    rw [one] at asks
    exact union asks
  | none =>
  rw [one] at asks
  dsimp only [Option.map_none] at asks ⊢
  have read : ((entries.renumber f).get? "type").getD .null =
      ((entries.get? "type").getD .null).renumber f := by
    rw [Entries.get?_renumber]
    cases entries.get? "type" <;> rfl
  rw [read, alike.graph.items?]
  cases several : job.graph.items? ((entries.get? "type").getD .null) with
  | some words =>
    rw [several] at asks
    refine lockstep.bind (mapM _ words fun word member => ?_) fun ts => lockstep.pure _
    exact typed alike (asks.mono fun v inside => List.mem_flatMap.2 ⟨word, member, inside⟩)
  | none =>
    rw [several] at asks
    exact typed alike asks

/-- The body of the declaration of a schema, which may be the type of the schema itself. -/
theorem body {schema : Nat}
    (asks : isInterface entries = true →
      lockstep.Asks f inner within around beyond (job.objectPositions entries))
    (own : lockstep.related (inner around false (.node schema))
      (within beyond false (.node (f schema)))) :
    lockstep.related (job.body inner around schema entries)
      (other.body within beyond (f schema) (entries.renumber f)) := by
  unfold Job.body
  rw [isInterface_renumber]
  split
  · next interface =>
    exact lockstep.bind (object alike (asks interface)) fun t => lockstep.pure _
  · have aliased : lockstep.related
        (inner around false (.node schema) >>= fun t => Pure.pure (DeclarationBody.alias t))
        (within beyond false (.node (f schema)) >>=
          fun t => Pure.pure (DeclarationBody.alias t)) :=
      lockstep.bind own fun t => lockstep.pure _
    rw [alike.options, Entries.get?_renumber, alike.listUnder?]
    rcases job.options.constEnums with _ | _
    · exact aliased
    rcases entries.get? "enum" with _ | choices
    · exact aliased
    rcases job.listUnder? entries "tsEnumNames" with _ | names
    · exact aliased
    dsimp only [Option.map_some]
    refine lift_bind (List.map (Value.renumber f)) (elements_renumber alike.graph choices)
      fun values _ => ?_
    rw [alike.enumMembers, alike.hasLongMember]
    exact lift fun _ _ => lockstep.pure _

end

section

variable {job other : Job} {f : Nat → Nat} {inner within : Inner}
variable (alike : ReadAlike job other f)
include alike

/-- A step from a value, if references lead both to the same. It asks for the name of a schema with a
title and writes out others, unless they are around already. -/
theorem stepVia {chase chaseOther : Value → Except Error (Value × Bool)} {ask askOther : Ask}
    {around beyond : List Nat} {v : Value} {named : Bool}
    (follows : chaseOther (v.renumber f) =
      (chase v).map fun target => (target.1.renumber f, target.2))
    (asks : ∀ schema entries text hopped, chase v = .ok (.node schema, hopped) →
      job.graph.get? schema = some (.mapping entries) →
      entries.get? "title" = some (.str text) → (named || hopped) = true →
      lockstep.related (ask around "" schema entries)
        (askOther beyond "" (f schema) (entries.renumber f)))
    (written : ∀ schema entries hopped, chase v = .ok (.node schema, hopped) →
      job.graph.get? schema = some (.mapping entries) → entries.isEmpty = false →
      ((named || hopped) = true → ∀ text, entries.get? "title" ≠ some (.str text)) →
      (f schema ∈ beyond ↔ schema ∈ around) ∧
        (schema ∈ around → lockstep.related (warn .unnamedRecursion) (warn .unnamedRecursion)) ∧
        lockstep.related (job.written inner (schema :: around) entries)
          (other.written within (f schema :: beyond) (entries.renumber f))) :
    lockstep.related (job.stepVia chase ask inner around named v)
      (other.stepVia chaseOther askOther within beyond named (v.renumber f)) := by
  unfold Job.stepVia
  refine lift_bind _ follows fun target chased => ?_
  obtain ⟨target, hopped⟩ := target
  dsimp only
  rw [alike.graph.entries?]
  cases target with
  | scalar s =>
    rcases s with _ | (_ | _) | _ | _ | _ | _ | _ | _ | _
    all_goals exact lockstep.pure _
  | node schema =>
    cases read : job.graph.entries? (.node schema) with
    | none => exact lockstep.pure _
    | some entries =>
      have found := Graph.get?_of_entries? read
      have title : (((entries.renumber f).get? "title").bind Value.str?).isSome =
          ((entries.get? "title").bind Value.str?).isSome := by
        rw [Entries.get?_renumber]
        cases entries.get? "title" <;> simp
      simp only [Option.map_some, Value.renumber_node, Entries.isEmpty_renumber, title]
      split
      · exact lockstep.pure _
      · next inhabited =>
        rw [Bool.not_eq_true] at inhabited
        split
        · next wanted =>
          rw [Bool.and_eq_true, Option.isSome_iff_exists] at wanted
          obtain ⟨isAsked, text, titled⟩ := wanted
          exact lockstep.bind
            (asks schema entries text hopped chased found (bind_str?_eq_some_iff.1 titled) isAsked)
            fun name => lockstep.pure _
        · next unwanted =>
          have untitled : (named || hopped) = true → ∀ text,
              entries.get? "title" ≠ some (.str text) := by
            intro isAsked text titled
            rw [bind_str?_eq_some_iff.2 titled, isAsked] at unwanted
            exact unwanted rfl
          obtain ⟨same, warns, goesOn⟩ := written schema entries hopped chased found inhabited untitled
          simp only [List.contains_iff_mem, same]
          split
          · next met => exact lockstep.bind (warns met) fun _ => lockstep.pure _
          · exact goesOn

/-- A step from a value that follows references within the schema, if these lead both to the
same. -/
theorem stepBy {ask askOther : Ask} (inside : lockstep.Inside f inner within)
    (warns : lockstep.related (warn .unnamedRecursion) (warn .unnamedRecursion))
    (around : List Nat) (v : Value) (named : Bool)
    (follows : follow other.graph (.node other.root) (v.renumber f) =
      (follow job.graph (.node job.root) v).map fun target => (target.1.renumber f, target.2))
    (asks : ∀ schema entries, job.graph.get? schema = some (.mapping entries) →
      lockstep.related (ask around "" schema entries)
        (askOther (around.map f) "" (f schema) (entries.renumber f))) :
    lockstep.related (job.stepBy ask inner around named v)
      (other.stepBy askOther within (around.map f) named (v.renumber f)) := by
  rw [Job.stepBy_eq_stepVia, Job.stepBy_eq_stepVia]
  refine stepVia alike follows (fun schema entries _ _ _ found _ _ => asks schema entries found)
    fun schema entries _ _ _ _ _ =>
      ⟨List.mem_map_of_injective alike.graph.injective, fun _ => warns, ?_⟩
  exact written alike (inside.asks (schema :: around) _)

end

end Lockstep

end Typewright.Compile
