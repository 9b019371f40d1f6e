import Mathlib.Order.OrderIsoNat
import Typewright.Proofs.Compile.Parts

/-!
# Compilations end

Three guards keep a compilation from going on for ever: a schema is declared once, a schema that is
being written out is not written out inside itself, and chains of references end by assumption. The
depth at which the schemas inside are compiled is spent by none of them in vain: every level either
gives a name or goes into a schema that is not around it yet, so the names, the schemas around and
the depth that is left stay above twice the number of containers (`Compile.expression_ends`). Hence
a compilation ends with a source or with an error for a malformed value (`Compile.source_ends`).
-/

namespace Typewright.Compile

/-! ## Chains of references -/

/-- A reference leads from a value to the value that it names. -/
def Hops (g : Graph) (root v w : Value) : Prop :=
  ∃ ref text, g.field? v Schema.refKey = some ref ∧ refText ref = .ok text ∧
    resolve g root text = .ok w

/-- No chain of references goes on without end. -/
def ChainsEnd (g : Graph) (root : Value) : Prop :=
  ¬∃ chain : Nat → Value, ∀ n, Hops g root (chain n) (chain (n + 1))

section

variable {g : Graph} {root : Value}

theorem isMalformed_itemAt {items : List Value} {index : Int} {e : Error}
    (failed : itemAt items index = .error e) : IsMalformed e := by
  unfold itemAt at failed
  dsimp only at failed
  generalize (if index < 0 then index + items.length else index) = place at failed
  split at failed
  · cases failed
    trivial
  · split at failed <;> cases failed
    trivial

theorem isMalformed_stepTo {ref segment : String} {v : Value} {e : Error}
    (failed : stepTo g ref v segment = .error e) : IsMalformed e := by
  unfold stepTo at failed
  split at failed
  · split at failed
    · exact isMalformed_itemAt failed
    · cases failed
      trivial
  · split at failed <;> cases failed
    trivial
  · cases failed
    trivial

theorem isMalformed_foldlM {α : Type} {f : Value → α → Except Error Value} {l : List α} {v : Value}
    {e : Error} (each : ∀ v x other, f v x = .error other → IsMalformed other)
    (failed : l.foldlM f v = .error e) : IsMalformed e := by
  induction l generalizing v with
  | nil => cases failed
  | cons x l ih =>
    rw [List.foldlM_cons] at failed
    rcases exists_of_bind_error failed with first | ⟨w, _, later⟩
    · exact each v x e first
    · exact ih later

theorem isMalformed_resolve {ref : String} {e : Error} (failed : resolve g root ref = .error e) :
    IsMalformed e := by
  unfold resolve at failed
  split at failed
  · exact isMalformed_foldlM (fun _ _ _ wrong => isMalformed_stepTo wrong) failed
  · cases failed
    trivial

theorem isMalformed_refText {ref : Value} {e : Error} (failed : refText ref = .error e) :
    IsMalformed e := by
  unfold refText at failed
  split at failed <;> cases failed <;> trivial

/-- Following references fails at a malformed one, or where the next value does. -/
theorem followFrom_error {fuel : Nat} {hopped : Bool} {v : Value} {e : Error}
    (failed : followFrom g root (fuel + 1) hopped v = .error e) :
    IsMalformed e ∨ ∃ w, Hops g root v w ∧ followFrom g root fuel true w = .error e := by
  rw [followFrom] at failed
  split at failed
  · cases failed
  · next ref held =>
    rcases exists_of_bind_error failed with unread | ⟨text, read, failed⟩
    · exact Or.inl (isMalformed_refText unread)
    · rcases exists_of_bind_error failed with unresolved | ⟨w, resolved, failed⟩
      · exact Or.inl (isMalformed_resolve unresolved)
      · exact Or.inr ⟨w, ⟨ref, text, held, read, resolved⟩, failed⟩

theorem ChainsEnd.wellFounded (chainsEnd : ChainsEnd g root) :
    WellFounded fun w v => Hops g root v w := by
  rw [wellFounded_iff_isEmpty_descending_chain]
  exact ⟨fun ⟨chain, hops⟩ => chainsEnd ⟨chain, hops⟩⟩

/-- Numbers of containers, each once. -/
structure Distinct (size : Nat) (ids : List Nat) : Prop where
  nodup : ids.Nodup
  bound : ∀ id ∈ ids, id < size

theorem Distinct.length_le {size : Nat} {ids : List Nat} (distinct : Distinct size ids) :
    ids.length ≤ size := by
  have inside : ids ⊆ List.range size := fun id member => by simpa using distinct.bound id member
  simpa using (distinct.nodup.subperm inside).length_le

theorem Distinct.cons {size id : Nat} {ids : List Nat} (distinct : Distinct size ids)
    (fresh : id ∉ ids) (bound : id < size) : Distinct size (id :: ids) := by
  refine ⟨List.nodup_cons.2 ⟨fresh, distinct.nodup⟩, fun other member => ?_⟩
  rcases List.mem_cons.1 member with rfl | old
  · exact bound
  · exact distinct.bound other old

/-- A chain that has passed some containers, none of them twice, ends before it has passed all. -/
theorem isMalformed_followFrom (chainsEnd : ChainsEnd g root) {fuel : Nat} {hopped : Bool}
    {v : Value} {e : Error} (seen : List Nat) (distinct : Distinct g.size seen)
    (led : ∀ id ∈ seen, Relation.TransGen (fun w v => Hops g root v w) v (.node id))
    (enough : g.size < seen.length + fuel) (failed : followFrom g root fuel hopped v = .error e) :
    IsMalformed e := by
  induction fuel generalizing hopped v seen with
  | zero =>
    have fits := distinct.length_le
    omega
  | succ fuel ih =>
    rcases followFrom_error failed with malformed | ⟨w, hops, failedLater⟩
    · exact malformed
    · have leads := hops
      obtain ⟨ref, _, held, _⟩ := hops
      obtain ⟨entries, read, _⟩ := Option.bind_eq_some_iff.1 held
      cases v with
      | scalar s => cases read
      | node id =>
        -- a container that is met again would lead to itself
        have fresh : id ∉ seen := fun member =>
          chainsEnd.wellFounded.transGen.irrefl.irrefl _ (led id member)
        have bound := Graph.lt_size_of_get? (Graph.get?_of_entries? read)
        refine ih (id :: seen) (distinct.cons fresh bound) (fun other member => ?_)
          (by rw [List.length_cons]; omega) failedLater
        rcases List.mem_cons.1 member with rfl | old
        · exact .single leads
        · exact .head leads (led other old)

/-- If chains of references end, following one fails only at a malformed value. -/
theorem isMalformed_follow (chainsEnd : ChainsEnd g root) {v : Value} {e : Error}
    (failed : follow g root v = .error e) : IsMalformed e :=
  isMalformed_followFrom chainsEnd [] ⟨List.nodup_nil, by simp⟩ (by simp) (by simp) failed

/-- Along a chain without end every number of references is too small. -/
theorem followFrom_endless {chain : Nat → Value}
    (hops : ∀ n, Hops g root (chain n) (chain (n + 1))) (fuel : Nat) (hopped : Bool) (n : Nat) :
    followFrom g root fuel hopped (chain n) = .error .endless := by
  induction fuel generalizing hopped n with
  | zero => rfl
  | succ fuel ih =>
    obtain ⟨ref, text, held, read, resolved⟩ := hops n
    rw [followFrom, held]
    dsimp only
    rw [read]
    change (resolve g root text >>= fun target => followFrom g root fuel true target) = _
    rw [resolved]
    exact ih true (n + 1)

/-- Chains of references end exactly if none of the containers begins one without end. -/
theorem chainsEnd_iff :
    ChainsEnd g root ↔ ∀ id < g.size, follow g root (.node id) ≠ .error .endless := by
  constructor
  · intro chainsEnd id _ failed
    exact isMalformed_follow chainsEnd failed
  · rintro ends ⟨chain, hops⟩
    obtain ⟨ref, _, held, _⟩ := hops 0
    obtain ⟨entries, read, _⟩ := Option.bind_eq_some_iff.1 held
    cases first : chain 0 with
    | scalar s =>
      rw [first] at read
      cases read
    | node id =>
      rw [first] at read
      refine ends id (Graph.lt_size_of_get? (Graph.get?_of_entries? read)) ?_
      rw [← first]
      exact followFrom_endless hops _ _ 0

end

/-! ## The budget -/

/-- The names of a draft are those of containers, each of which has one. -/
def Sound (job : Job) (draft : Draft) : Prop :=
  Distinct job.graph.size (draft.names.map (·.1))

/-- What a compilation that ends agrees to: names are added, for containers that have none, and only
malformed values are refused. -/
def ending (job : Job) : Contract where
  grows before after := before.names <+: after.names ∧ (Sound job before → Sound job after)
  isRaw := fun _ => True
  fault := IsMalformed
  refl _ := ⟨List.prefix_rfl, id⟩
  trans first second := ⟨first.1.trans second.1, fun sound => second.2 (first.2 sound)⟩
  names grows := grows.1
  warned _ _ := ⟨List.prefix_rfl, id⟩
  malformed _ malformed := malformed

/-- An agreement that names anything. -/
abbrev Anything : Nat → Prop := fun _ => True

section

variable {job : Job}

theorem grows_give {draft : Draft} {schema : Nat} {entries : Entries}
    (found : job.graph.get? schema = some (.mapping entries)) (title : String)
    (missing : draft.nameOf? schema = none) :
    (ending job).grows draft (draft.give schema title) := by
  refine ⟨List.prefix_append _ _, fun sound => ?_⟩
  rw [Sound, Draft.give, List.map_append]
  refine ⟨?_, fun id member => ?_⟩
  · rw [List.nodup_append]
    refine ⟨sound.nodup, by simp, ?_⟩
    rintro id member other last rfl
    rw [List.map_singleton, List.mem_singleton] at last
    rw [last] at member
    exact nameOf?_eq_none missing member
  · rcases List.mem_append.1 member with old | new
    · exact sound.bound id old
    · rw [List.map_singleton, List.mem_singleton] at new
      rw [new]
      exact Graph.lt_size_of_get? found

/-- Declaring a schema ends if the schemas inside do, given the one name more. -/
theorem declare_ends {inner : Inner} {around : List Nat} {standIn : String} {draft : Draft}
    {schema : Nat} {entries : Entries} (found : job.graph.get? schema = some (.mapping entries))
    (sound : Sound job draft)
    (inside : ∀ isNamed v d, draft.names.length < d.names.length →
      Sound job d →
      (ending job).Gives Anything d (inner around isNamed v)) :
    Ends draft (job.declare inner around standIn schema entries) (fun name after =>
      (ending job).grows draft after ∧ after.nameOf? schema = some name) IsMalformed := by
  refine (ending job).declare (fun title missing _ _ => grows_give found title missing)
    fun title missing _ => ?_
  have given := grows_give found title missing
  have later : ∀ isNamed v d, (ending job).grows (draft.give schema title) d →
      (ending job).Gives Anything d (inner around isNamed v) := by
    intro isNamed v d grows
    refine inside isNamed v d ?_ (grows.2 (given.2 sound))
    have longer := grows.1.length_le
    rw [Draft.give, List.length_append, List.length_singleton] at longer
    omega
  have asks : (ending job).Asks Anything job inner around entries (draft.give schema title) :=
    fun v _ d grows => later true v d grows
  refine (Contract.body asks fun d grows => later false (.node schema) d grows).mono ?_
  rintro body after ⟨grows, _⟩
  exact ⟨grows.1, given.1.trans grows.1, fun before => grows.2 (given.2 before)⟩

/-- A value is compiled without running out of depth if the depth, the names given and the schemas
around are more than twice as many as there are containers. -/
theorem expression_ends (chainsEnd : ChainsEnd job.graph (.node job.root)) (depth : Nat)
    (around : List Nat) (isNamed : Bool) (v : Value) (draft : Draft)
    (aroundDistinct : Distinct job.graph.size around)
    (sound : Sound job draft)
    (budget : 2 * job.graph.size < depth + draft.names.length + around.length) :
    (ending job).Gives Anything draft (job.expression depth around isNamed v) := by
  induction depth generalizing around isNamed v draft with
  | zero =>
    have names := sound.length_le
    have schemas := aroundDistinct.length_le
    rw [List.length_map] at names
    omega
  | succ depth ih =>
    refine (ending job).step (fun e failed => isMalformed_follow chainsEnd failed)
      (fun schema entries text hopped _ found _ _ => ⟨trivial, ?_⟩)
      fun schema entries hopped _ found outside _ => ?_
    · exact declare_ends found sound fun isNamed v d longer later =>
        ih around isNamed v d aroundDistinct later (by omega)
    · have inside := aroundDistinct.cons outside (Graph.lt_size_of_get? found)
      have asks : (ending job).Asks Anything job (job.expression depth) (schema :: around) entries
          draft := fun v _ d grows => by
        have longer := grows.1.length_le
        exact ih (schema :: around) true v d inside (grows.2 sound)
          (by rw [List.length_cons]; omega)
      exact Contract.written asks fun _ _ => trivial

/-! ## Whole runs -/

/-- Declaring a schema at the outset. -/
theorem declare_top_ends (chainsEnd : ChainsEnd job.graph (.node job.root)) {standIn : String}
    {draft : Draft} {schema : Nat} {entries : Entries}
    (found : job.graph.get? schema = some (.mapping entries))
    (sound : Sound job draft) :
    Ends draft (job.declare (job.expression job.depth) [] standIn schema entries)
      (fun _ after => Sound job after) IsMalformed := by
  refine (declare_ends found sound fun isNamed v d _ later => ?_).mono
    fun _ _ ⟨grows, _⟩ => grows.2 sound
  refine expression_ends chainsEnd job.depth [] isNamed v d ⟨List.nodup_nil, by simp⟩ later ?_
  rw [Job.depth]
  omega

theorem declareDefinitions_ends (chainsEnd : ChainsEnd job.graph (.node job.root))
    (entries : Entries) {draft : Draft}
    (sound : Sound job draft) :
    Ends draft (job.declareDefinitions entries) (fun _ _ => True) IsMalformed := by
  unfold Job.declareDefinitions
  refine Ends.of_bind (Ends.of_lift (fun definitions _ => ?_)
    fun e failed => isMalformed_entriesUnder failed)
  refine Ends.of_bind ((Ends.of_forIn (Sound job) definitions sound ?_).mono
    fun _ _ _ => Ends.of_pure trivial)
  rintro ⟨key, v⟩ _ d here
  dsimp only
  split
  · next schema inside read =>
    have found := Graph.get?_of_entries? read
    exact Ends.of_bind ((declare_top_ends chainsEnd found here).mono fun name after kept =>
      Ends.of_pure kept)
  · exact Ends.of_pure here

theorem run_ends (chainsEnd : ChainsEnd job.graph (.node job.root)) {text : String}
    (titled : job.graph.field? (.node job.root) "title" = some (.str text)) :
    Ends {} (Job.run job) (fun _ _ => True) IsMalformed := by
  obtain ⟨entries, read, held⟩ := Option.bind_eq_some_iff.1 titled
  unfold Job.run
  rw [read]
  dsimp only
  rw [held]
  have start : Sound job {} := ⟨List.nodup_nil, by simp⟩
  refine Ends.of_bind ((declare_top_ends chainsEnd (Graph.get?_of_entries? read) start).mono
    fun name after sound => ?_)
  split
  · exact declareDefinitions_ends chainsEnd entries sound
  · exact Ends.of_pure trivial

end

/-- A compilation of a titled mapping in which chains of references end gives a text or refuses a
malformed value, with any options. -/
theorem source_ends (g : Graph) (root : Nat) (options : Options) {text : String}
    (titled : g.field? (.node root) "title" = some (.str text))
    (chainsEnd : ChainsEnd g (.node root)) :
    (∃ text, (source g (.node root) options).map Source.text = .ok text) ∨
      ∃ e, source g (.node root) options = .error e ∧ IsMalformed e := by
  have ends : Ends {} (Job.run ⟨g, root, options⟩) (fun _ _ => True) IsMalformed :=
    run_ends chainsEnd titled
  unfold source
  dsimp only
  cases ran : (Job.run ⟨g, root, options⟩).run {} with
  | error e => exact Or.inr ⟨e, rfl, ends.fails e ran⟩
  | ok both =>
    cases options.banner with
    | none => exact Or.inr ⟨.wrongKind, rfl, trivial⟩
    | some banner => exact Or.inl ⟨_, rfl⟩

/-- A schema whose definition mentions itself and the root, with an unnamed schema that holds
itself. -/
def knot : Graph := ⟨#[
  .mapping [(.str "title", .str "Root"), (.str "properties", .node 1),
    (.str "definitions", .node 2)],
  .mapping [(.str "loop", .node 3), (.str "first", .node 5)],
  .mapping [(.str "Next", .node 4)],
  .mapping [(.str "type", .str "array"), (.str "items", .node 3)],
  .mapping [(.str "title", .str "Next"), (.str "anyOf", .node 6)],
  .mapping [(.str "$ref", .str "#/definitions/Next")],
  .sequence [.node 5, .node 7],
  .mapping [(.str "$ref", .str "#")]]⟩

theorem source_ends_knot : ChainsEnd knot (.node 0) ∧
    ((∃ text, (source knot (.node 0) {}).map Source.text = .ok text) ∨
      ∃ e, source knot (.node 0) {} = .error e ∧ IsMalformed e) := by
  have chainsEnd : ChainsEnd knot (.node 0) := chainsEnd_iff.2 (by decide +kernel)
  have titled : knot.field? (.node 0) "title" = some (.str "Root") := by decide +kernel
  exact ⟨chainsEnd, source_ends knot 0 {} titled chainsEnd⟩

/-- Without the assumption on chains there is no end: a root that is a reference to itself. -/
example : (source ⟨#[.mapping [(.str "title", .str "A"), (.str "$ref", .str "#")]]⟩ (.node 0)
    {}).map Source.text = .error .endless := by
  rfl

end Typewright.Compile
