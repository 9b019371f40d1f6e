import Typewright.Proofs.Outcome
import Typewright.World.Simulated

/-!
# What loading fails with

Loading a document gives a mapping or fails, and most of its errors name the locator. The others
escape for four reasons (`Load.Escapes`): the locator cannot be split as an address, the request
fails in a way that is not expected of it, the bytes of the file are no text, or one of the readers
refuses the text for another reason than that it is not of its language. Whatever the readers, the
files and the web are, only errors that name the locator are left where there is no such reason
(`Load.document_resolves_iff`).
-/

namespace Typewright.Load

open Text

variable {outside : Outside Id} {locator path text : String} {readers : Readers}

/-- The text that bytes hold. -/
def textOf (bytes : List UInt8) : Except Error String :=
  match Utf8.decode bytes with
  | .error failure => .error (.undecodable failure)
  | .ok text => .ok (String.ofList (withLineFeeds text.toList))

/-- Reading the text of a file fails where reading its bytes does. -/
theorem run_readText (noNull : Char.ofNat 0 ∉ path.toList) :
    (readText outside path).run = match outside.readFile path with
      | .error fault => .error (.resolution path (.unreadable fault path))
      | .ok bytes => textOf bytes := by
  have none : path.toList.contains (Char.ofNat 0) = false := by simpa using noNull
  rw [readText, none]
  change (match outside.readFile path with
    | .error fault => (throw (Error.resolution path (.unreadable fault path)) : Loading Id String)
    | .ok bytes => match Utf8.decode bytes with
      | .error failure => throw (Error.undecodable failure)
      | .ok text => pure (String.ofList (withLineFeeds text.toList))).run = _
  cases outside.readFile path with
  | error fault => rfl
  | ok bytes =>
    dsimp only
    rw [textOf]
    cases Utf8.decode bytes <;> rfl

theorem run_fileDocument (locator : String) :
    (fileDocument outside path locator).run =
      ((readText outside path).run >>= (parse · locator outside.readers) : Except Error Document) := by
  rw [fileDocument, ExceptT.run_bind]
  cases (readText outside path).run <;> rfl

theorem run_fetchDocument :
    (fetchDocument outside locator).run = match outside.fetch locator with
      | .error .own => .error (.resolution locator .unfetchable)
      | .error (.other error) => .error (.foreign error)
      | .ok text => parse text locator outside.readers := by
  rw [fetchDocument]
  change (match outside.fetch locator with
    | .error .own => (throw (Error.resolution locator .unfetchable) : Loading Id Document)
    | .error (.other error) => throw (Error.foreign error)
    | .ok text => liftM (parse text locator outside.readers)).run = _
  cases outside.fetch locator with
  | error refusal => cases refusal <;> rfl
  | ok text =>
    dsimp only
    cases parse text locator outside.readers <;> rfl

/-- Loading splits the locator, asks the outside for a text, and reads it. -/
theorem run_document (noNull : Char.ofNat 0 ∉ locator.toList) :
    (document outside locator).run = match Uri.split locator.toList with
      | .error fault => .error (addressError fault)
      | .ok parts =>
        if isWeb parts then
          match outside.fetch locator with
          | .error .own => .error (.resolution locator .unfetchable)
          | .error (.other error) => .error (.foreign error)
          | .ok text => parse text locator outside.readers
        else match outside.readFile locator with
          | .error fault => .error (.resolution locator (.unreadable fault locator))
          | .ok bytes =>
            (textOf bytes >>= (parse · locator outside.readers) : Except Error Document) := by
  cases split : Uri.split locator.toList with
  | error fault =>
    have unsplit : isUrl locator = .error (addressError fault) := by rw [isUrl, split]
    rw [document, unsplit]
    rfl
  | ok parts =>
    have kind : isUrl locator = .ok (isWeb parts) := by rw [isUrl, split]
    rw [document, kind]
    dsimp only
    cases isWeb parts with
    | true =>
      have fetched : (fetchDocument outside locator).run = _ := run_fetchDocument
      exact Eq.trans rfl fetched
    | false =>
      have read : (fileDocument outside locator locator).run = _ := run_fileDocument locator
      rw [run_readText noNull] at read
      refine Eq.trans rfl (read.trans ?_)
      cases outside.readFile locator <;> rfl

/-! ## Texts of documents -/

/-- The errors that a text is refused with other than for its language: those of the reader for JSON,
and, where the text is not JSON, those of the reader for YAML. -/
inductive Refused (readers : Readers) (text : String) : Foreign → Prop
  | json {error : Foreign} (refused : readers.json text = .error (.other error)) :
    Refused readers text error
  | yaml {error : Foreign} (notJson : readers.json text = .error .own)
      (refused : readers.yaml text = .error (.other error)) : Refused readers text error

theorem Refused.parse {error : Foreign} (refused : Refused readers text error) (locator : String) :
    parse text locator readers = .error (.foreign error) := by
  cases refused with
  | json refused =>
    rw [Load.parse, refused]
    rfl
  | yaml notJson refused =>
    rw [Load.parse, notJson]
    dsimp only
    rw [refused]
    rfl

/-- What a text gives that one of the readers has read: a mapping, or an error that names the
locator. -/
theorem cases_of_read {d : Document}
    (whole : parse text locator readers = if d.graph.isMapping d.root then .ok d
      else .error (.resolution locator .rootNotObject)) :
    (∃ d, parse text locator readers = .ok d ∧ d.graph.isMapping d.root = true) ∨
      ∃ fault, parse text locator readers = .error (.resolution locator fault) := by
  cases isMapping : d.graph.isMapping d.root with
  | true =>
    rw [isMapping, if_pos rfl] at whole
    exact .inl ⟨d, whole, isMapping⟩
  | false =>
    rw [isMapping, if_neg Bool.false_ne_true] at whole
    exact .inr ⟨_, whole⟩

/-- Reading a text as a document gives a mapping or refuses it by the locator, unless a reader refuses
it otherwise. -/
theorem cases_of_parse (text locator : String) (readers : Readers) :
    (∃ d, parse text locator readers = .ok d ∧ d.graph.isMapping d.root = true) ∨
      (∃ fault, parse text locator readers = .error (.resolution locator fault)) ∨
      ∃ error, Refused readers text error := by
  cases json : readers.json text with
  | ok d => exact (cases_of_read (d := d) (by rw [parse, json]; rfl)).imp_right .inl
  | error refusal =>
    cases refusal with
    | other error => exact .inr (.inr ⟨error, .json json⟩)
    | own =>
      cases yaml : readers.yaml text with
      | ok d =>
        exact (cases_of_read (d := d) (by rw [parse, json]; dsimp only; rw [yaml]; rfl)).imp_right
          .inl
      | error refusal =>
        cases refusal with
        | other error => exact .inr (.inr ⟨error, .yaml json yaml⟩)
        | own =>
          refine .inr (.inl ⟨.invalidText, ?_⟩)
          rw [parse, json]
          dsimp only
          rw [yaml]
          rfl

/-! ## Errors that escape -/

/-- The text that loading from a locator comes upon. -/
inductive Delivers (outside : Outside Id) (locator : String) : String → Prop
  | web {parts : Uri.Parts} {text : String} (split : Uri.split locator.toList = .ok parts)
      (web : isWeb parts = true) (answer : outside.fetch locator = .ok text) :
      Delivers outside locator text
  | file {parts : Uri.Parts} {bytes : List UInt8} {text : String}
      (split : Uri.split locator.toList = .ok parts) (path : isWeb parts = false)
      (held : outside.readFile locator = .ok bytes) (decoded : textOf bytes = .ok text) :
      Delivers outside locator text

/-- The errors that loading fails with other than those that name the locator. -/
inductive Escapes (outside : Outside Id) (locator : String) : Error → Prop
  | address {fault : Uri.Fault} (unsplit : Uri.split locator.toList = .error fault) :
      Escapes outside locator (addressError fault)
  | request {parts : Uri.Parts} {error : Foreign} (split : Uri.split locator.toList = .ok parts)
      (web : isWeb parts = true) (failed : outside.fetch locator = .error (.other error)) :
      Escapes outside locator (.foreign error)
  | bytes {parts : Uri.Parts} {bytes : List UInt8} {failure : Utf8.Failure}
      (split : Uri.split locator.toList = .ok parts) (path : isWeb parts = false)
      (held : outside.readFile locator = .ok bytes)
      (undecodable : Utf8.decode bytes = .error failure) :
      Escapes outside locator (.undecodable failure)
  | text {text : String} {error : Foreign} (delivered : Delivers outside locator text)
      (refused : Refused outside.readers text error) : Escapes outside locator (.foreign error)

/-- None of the errors that escape names the locator. -/
theorem Escapes.ne_resolution {error : Error} (escapes : Escapes outside locator error)
    (fault : ResolutionFault) : error ≠ .resolution locator fault := by
  cases escapes <;> simp [addressError]

/-- Once a text is delivered, loading reads it. -/
theorem run_document_of_delivers (noNull : Char.ofNat 0 ∉ locator.toList)
    (delivered : Delivers outside locator text) :
    (document outside locator).run = parse text locator outside.readers := by
  cases delivered with
  | web split web answer =>
    rw [run_document noNull, split]
    simp only [web, if_true, answer]
  | file split path held decoded =>
    rw [run_document noNull, split]
    simp only [path, Bool.false_eq_true, if_false, held, decoded]
    rfl

theorem Escapes.run {error : Error} (noNull : Char.ofNat 0 ∉ locator.toList)
    (escapes : Escapes outside locator error) : (document outside locator).run = .error error := by
  cases escapes with
  | address unsplit => rw [run_document noNull, unsplit]
  | request split web failed =>
    rw [run_document noNull, split]
    simp only [web, if_true, failed]
  | bytes split path held undecodable =>
    rw [run_document noNull, split]
    simp only [path, Bool.false_eq_true, if_false, held, textOf, undecodable]
    rfl
  | text delivered refused => rw [run_document_of_delivers noNull delivered, refused.parse]

/-- Loading gives a mapping, or it fails with an error that names the locator or escapes. -/
theorem cases_of_document (noNull : Char.ofNat 0 ∉ locator.toList) :
    (∃ d, (document outside locator).run = .ok d ∧ d.graph.isMapping d.root = true) ∨
      (∃ fault, (document outside locator).run = .error (.resolution locator fault)) ∨
      ∃ error, Escapes outside locator error := by
  have reads {text : String} (delivered : Delivers outside locator text) :
      (∃ d, (document outside locator).run = .ok d ∧ d.graph.isMapping d.root = true) ∨
        (∃ fault, (document outside locator).run = .error (.resolution locator fault)) ∨
        ∃ error, Escapes outside locator error := by
    rw [run_document_of_delivers noNull delivered]
    rcases cases_of_parse text locator outside.readers with read | named | ⟨error, refused⟩
    · exact .inl read
    · exact .inr (.inl named)
    · exact .inr (.inr ⟨_, .text delivered refused⟩)
  cases split : Uri.split locator.toList with
  | error fault => exact .inr (.inr ⟨_, .address split⟩)
  | ok parts =>
    have run : (document outside locator).run = _ := run_document noNull
    rw [split] at run
    cases web : isWeb parts with
    | true =>
      cases answer : outside.fetch locator with
      | ok text => exact reads (.web split web answer)
      | error refusal =>
        cases refusal with
        | other error => exact .inr (.inr ⟨_, .request split web answer⟩)
        | own =>
          simp only [web, if_true, answer] at run
          exact .inr (.inl ⟨_, run⟩)
    | false =>
      cases held : outside.readFile locator with
      | error fault =>
        simp only [web, Bool.false_eq_true, if_false, held] at run
        exact .inr (.inl ⟨_, run⟩)
      | ok bytes =>
        cases decoded : Utf8.decode bytes with
        | error failure => exact .inr (.inr ⟨_, .bytes split web held decoded⟩)
        | ok text => exact reads (.file split web held (by rw [textOf, decoded]))

/-- A world with a file of one byte that is no text. -/
def oneByte : World :=
  { World.empty with files := [("/a.json", [0xff])] }

end Typewright.Load
