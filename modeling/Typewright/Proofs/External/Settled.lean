import Typewright.Api.Models
import Typewright.Proofs.Json.FirstFault
import Typewright.Proofs.Text.Utf8

/-!
# How the outside compiler ends

A compilation by a program outside ends in one of eight ways, each with a condition on the command,
the program, the options and the schema (`External.Ends`, `External.compile_ends`). It should end
with the text that a program which exited with zero has written, or be refused as a fault of the
compiler (`External.Settled`), whatever the schema, the options and the program. It does so exactly
if the options can be shown, the first fault of the schema is no value that JSON does not have, the
program starts with its arguments, and what it has written is UTF-8 wherever it is read
(`External.compile_settled_iff`).
-/

namespace Typewright.External

open Text

/-- A compilation that ended as its callers expect: with what the program has written, if it was
found and exited with zero, or refused for a fault of the compiler. -/
inductive Settled (program : Program) : Except Error Run → Prop
  | returned {run : Run} (found : program.path.isSome = true) (succeeded : program.exitCode = 0)
    (read : Utf8.encode run.output = program.output) : Settled program (.ok run)
  | refused (fault : CompilerFault) : Settled program (.error (.compiler fault))

/-- A program that was found, for options that can be shown. -/
structure Found (program : Program) (optionGraph : Graph) (options : Entries) (path : String) :
    Prop where
  found : program.path = some path
  short : hasLongInteger optionGraph options = false

/-- A program that was found and has been started on the text of a schema. -/
structure Started (program : Program) (g : Graph) (schema : Value) (optionGraph : Graph)
    (options : Entries) (words : List String) (path : String) : Prop
    extends Found program optionGraph options path where
  faultless : Json.Faultless g schema
  started : program.startError? (path :: words ++ arguments optionGraph options) = none

/-- How the compilation of a schema ends, by the command, the program, the options and the faults of
the schema. -/
inductive Ends (program : Program) (g : Graph) (schema : Value) (optionGraph : Graph)
    (options : Entries) : List String → Except Error Run → Prop
  | nameless : Ends program g schema optionGraph options [] (.error .outOfRange)
  | notFound {name : String} {words : List String} (absent : program.path = none) :
    Ends program g schema optionGraph options (name :: words)
      (.error (.compiler (.notFound name)))
  | notShown {name path : String} {words : List String} (found : program.path = some path)
    (long : hasLongInteger optionGraph options = true) :
    Ends program g schema optionGraph options (name :: words) (.error (.badValue .tooLong))
  | unwritten {name path : String} {words : List String} {fault : Json.WriteFault}
    (found : Found program optionGraph options path) (first : Json.FirstFault g schema fault) :
    Ends program g schema optionGraph options (name :: words) (.error (writeError fault))
  | notStarted {name path : String} {words : List String} {error : Foreign}
    (found : Found program optionGraph options path) (faultless : Json.Faultless g schema)
    (refused : program.startError? (path :: words ++ arguments optionGraph options) =
      some error) :
    Ends program g schema optionGraph options (name :: words) (.error (.foreign error))
  | exited {name path complaint : String} {words : List String}
    (started : Started program g schema optionGraph options words path)
    (failed : program.exitCode ≠ 0) :
    Ends program g schema optionGraph options (name :: words)
      (.error (.compiler (.exited program.exitCode complaint)))
  | undecodable {name path : String} {words : List String} {failure : Utf8.Failure}
    (started : Started program g schema optionGraph options words path)
    (succeeded : program.exitCode = 0) (unread : ∀ text, Utf8.encode text ≠ program.output) :
    Ends program g schema optionGraph options (name :: words) (.error (.undecodable failure))
  | returned {name path : String} {words : List String} {run : Run}
    (started : Started program g schema optionGraph options words path)
    (succeeded : program.exitCode = 0) (read : Utf8.encode run.output = program.output) :
    Ends program g schema optionGraph options (name :: words) (.ok run)

/-- When a program that was found brings a compilation to an expected end: a container of the schema
inside itself or an integer that is too long is its first fault, or the schema has no fault and the
program starts, and then it fails or has written the bytes of a text. -/
def Concludes (program : Program) (g : Graph) (schema : Value) (words : List String) : Prop :=
  Json.FirstFault g schema .circular ∨ Json.FirstFault g schema .tooLong ∨
    Json.Faultless g schema ∧ program.startError? words = none ∧
      (program.exitCode ≠ 0 ∨ ∃ text, Utf8.encode text = program.output)

/-- When a compilation ends as expected: it has a command, and the program is not found, or the
options can be shown and the program concludes it. -/
def Settles (program : Program) (command : List String) (g : Graph) (schema : Value)
    (optionGraph : Graph) (options : Entries) : Prop :=
  ∃ name words, command = name :: words ∧
    (program.path = none ∨ ∃ path, program.path = some path ∧
      hasLongInteger optionGraph options = false ∧
      Concludes program g schema (path :: words ++ arguments optionGraph options))

section

variable {program : Program} {command : List String} {g : Graph} {schema : Value}
  {optionGraph : Graph} {options : Entries} {result : Except Error Run}

/-- Whether a program that was found settles a compilation, by whether it concludes it. -/
theorem Found.settles_iff {name path : String} {words : List String}
    (here : Found program optionGraph options path) :
    Settles program (name :: words) g schema optionGraph options ↔
      Concludes program g schema (path :: words ++ arguments optionGraph options) := by
  constructor
  · rintro ⟨_, _, same, settles⟩
    cases same
    rcases settles with absent | ⟨other, found, _, concludes⟩
    · rw [here.found] at absent
      cases absent
    · rw [here.found] at found
      cases found
      exact concludes
  · exact fun concludes => ⟨name, words, rfl, .inr ⟨path, here.found, here.short, concludes⟩⟩

theorem concludes_iff_of_firstFault {fault : Json.WriteFault} {words : List String}
    (first : Json.FirstFault g schema fault) :
    Concludes program g schema words ↔ fault ≠ .unsupported := by
  constructor
  · rintro (circular | long | ⟨faultless, _⟩) rfl
    · cases circular.unique first
    · cases long.unique first
    · obtain ⟨place, faulty, _⟩ := first
      exact faultless place _ faulty
  · intro supported
    cases fault with
    | circular => exact .inl first
    | tooLong => exact .inr (.inl first)
    | unsupported => exact absurd rfl supported

theorem concludes_iff_of_faultless {words : List String} (faultless : Json.Faultless g schema) :
    Concludes program g schema words ↔ program.startError? words = none ∧
      (program.exitCode ≠ 0 ∨ ∃ text, Utf8.encode text = program.output) := by
  constructor
  · rintro (⟨place, faulty, _⟩ | ⟨place, faulty, _⟩ | ⟨_, concludes⟩)
    · exact absurd faulty (faultless place _)
    · exact absurd faulty (faultless place _)
    · exact concludes
  · exact fun concludes => .inr (.inr ⟨faultless, concludes⟩)

theorem settled_writeError_iff {fault : Json.WriteFault} :
    Settled program (.error (writeError fault)) ↔ fault ≠ .unsupported := by
  cases fault with
  | circular | tooLong => exact iff_of_true (.refused _) nofun
  | unsupported => exact iff_of_false nofun (absurd rfl)

theorem Started.settles_iff {name path : String} {words : List String}
    (started : Started program g schema optionGraph options words path) :
    Settles program (name :: words) g schema optionGraph options ↔
      program.exitCode ≠ 0 ∨ ∃ text, Utf8.encode text = program.output := by
  rw [started.toFound.settles_iff, concludes_iff_of_faultless started.faultless]
  exact and_iff_right started.started

theorem Ends.settled_iff (ended : Ends program g schema optionGraph options command result) :
    Settled program result ↔ Settles program command g schema optionGraph options := by
  cases ended with
  | nameless =>
    refine iff_of_false nofun ?_
    rintro ⟨_, _, same, _⟩
    cases same
  | notFound absent => exact iff_of_true (.refused _) ⟨_, _, rfl, .inl absent⟩
  | notShown found long =>
    refine iff_of_false nofun ?_
    rintro ⟨_, _, _, absent | ⟨_, _, short, _⟩⟩
    · rw [found] at absent
      cases absent
    · rw [long] at short
      cases short
  | unwritten found first =>
    rw [found.settles_iff, concludes_iff_of_firstFault first, settled_writeError_iff]
  | notStarted found faultless refused =>
    rw [found.settles_iff, concludes_iff_of_faultless faultless, refused]
    exact iff_of_false nofun nofun
  | exited started failed =>
    exact iff_of_true (.refused _) (started.settles_iff.2 (.inl failed))
  | undecodable started succeeded unread =>
    rw [started.settles_iff]
    refine iff_of_false nofun ?_
    rintro (failed | ⟨text, read⟩)
    · exact failed succeeded
    · exact unread text read
  | returned started succeeded read =>
    have there : program.path.isSome = true := by rw [started.found]; rfl
    exact iff_of_true (.returned there succeeded read)
      (started.settles_iff.2 (.inr ⟨_, read⟩))

theorem Ends.eq_of_not_settled (ended : Ends program g schema optionGraph options command result)
    (unsettled : ¬ Settled program result) :
    result = .error .outOfRange ∨ result = .error (.badValue .tooLong) ∨
      result = .error .wrongKind ∨ (∃ error, result = .error (.foreign error)) ∨
      ∃ failure, result = .error (.undecodable failure) := by
  cases ended with
  | nameless => exact .inl rfl
  | notShown => exact .inr (.inl rfl)
  | unwritten _ _ =>
    obtain rfl := not_not.1 (mt settled_writeError_iff.2 unsettled)
    exact .inr (.inr (.inl rfl))
  | notStarted => exact .inr (.inr (.inr (.inl ⟨_, rfl⟩)))
  | undecodable => exact .inr (.inr (.inr (.inr ⟨_, rfl⟩)))
  | notFound | exited => exact absurd (.refused _) unsettled
  | returned started succeeded read =>
    exact absurd (.returned (by rw [started.found]; rfl) succeeded read) unsettled

end

section

variable (program : Program) (command : List String) (g : Graph) (schema : Value)
  (optionGraph : Graph) (options : Entries)

theorem compile_ends : Ends program g schema optionGraph options command
    (compile program command g schema optionGraph options) := by
  cases command with
  | nil => exact .nameless
  | cons name words =>
    unfold compile
    cases found : program.path with
    | none => exact .notFound found
    | some path =>
      dsimp only
      split
      · next long => exact .notShown found long
      next short =>
      have here : Found program optionGraph options path := ⟨found, by simpa using short⟩
      cases written : Json.write g .line schema with
      | error fault => exact .unwritten here (Json.write_eq_error_iff.1 written)
      | ok input =>
        have faultless := Json.exists_write_iff.1 ⟨input, written⟩
        dsimp only
        cases refused : program.startError? (path :: words ++ arguments optionGraph options) with
        | some error => exact .notStarted here faultless refused
        | none =>
          have started : Started program g schema optionGraph options words path :=
            ⟨here, faultless, refused⟩
          dsimp only
          split
          · next failed => exact .exited started failed
          · next succeeded =>
            have succeeded := not_not.1 succeeded
            cases decoded : Utf8.decode program.output with
            | error failure =>
              refine .undecodable started succeeded fun text read => ?_
              rw [Utf8.decode_eq_ok_iff.2 read] at decoded
              cases decoded
            | ok output =>
              exact .returned started succeeded (Utf8.decode_eq_ok_iff.1 decoded)

/-- A compilation by an outside program ends as expected under its conditions only. Otherwise there
is no command, an integer of the options is too long, the first fault of the schema is a value that
JSON does not have, the program was not started, or what it has written is no text. -/
theorem compile_settled_iff :
    (Settled program (compile program command g schema optionGraph options) ↔
      Settles program command g schema optionGraph options) ∧
    (¬ Settled program (compile program command g schema optionGraph options) →
      compile program command g schema optionGraph options = .error .outOfRange ∨
      compile program command g schema optionGraph options = .error (.badValue .tooLong) ∨
      compile program command g schema optionGraph options = .error .wrongKind ∨
      (∃ error, compile program command g schema optionGraph options =
        .error (.foreign error)) ∨
      ∃ failure, compile program command g schema optionGraph options =
        .error (.undecodable failure)) :=
  have ended := compile_ends program command g schema optionGraph options
  ⟨ended.settled_iff, ended.eq_of_not_settled⟩

end

/-- What a program that exits with zero has written may be no text. -/
example : compile { path := some "/usr/bin/npx", output := [0xff] } defaultCommand .empty .null
    .empty [] = .error (.undecodable ⟨0, 1, 0xff, .startByte⟩) := by
  rfl

/-- A description with a date as the example of a schema. -/
def datedExample : Graph :=
  ⟨#[.mapping [(.str "openapi", .str "3.0.0"), (.str "components", .node 1)],
    .mapping [(.str "schemas", .node 2)],
    .mapping [(.str "A", .node 3)],
    .mapping [(.str "type", .str "object"), (.str "example", .scalar (.date ⟨2020, 1, 1⟩))]]⟩

/-- A program that is found, exits with zero and writes nothing. -/
def quietProgram : Program where
  path := some "/usr/bin/npx"

/-- With a date in a schema the outside compiler ends with an error that is none of its own. -/
theorem not_settled_datedExample :
    ∃ normal g root, Api.normalise datedExample (.node 0) = .ok normal ∧
      Compile.addRoot normal.graph normal.definitions = (g, root) ∧
      compile quietProgram defaultCommand g root g Compile.wholeOptions = .error .wrongKind ∧
      ¬ Settled quietProgram
        (compile quietProgram defaultCommand g root g Compile.wholeOptions) := by
  have computed : (Api.normalise datedExample (.node 0)).toOption.map (fun normal =>
      let rooted := Compile.addRoot normal.graph normal.definitions
      (compile quietProgram defaultCommand rooted.1 rooted.2 rooted.1 Compile.wholeOptions).map
        fun _ => ()) = some (.error .wrongKind) := by decide +kernel
  obtain ⟨normal, given, refused⟩ := exists_of_toOption_map computed
  have failed := error_of_map_error refused
  refine ⟨normal, _, _, given, (Prod.eta _).symm, failed, ?_⟩
  rw [failed]
  nofun

end Typewright.External
