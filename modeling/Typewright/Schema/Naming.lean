import Typewright.Identifier
import Typewright.Number.Numeral
import Typewright.Text.Case

/-!
# Naming schemas

A `Naming` collects proposals of names for schemas and turns them into unique safe names. Schemas
are given by their numbers, and the first proposal for a schema wins. `Naming.finalize` names the
schemas that have a proposal and no name yet, in the order of the proposals: each gets its cleaned
title with the first suffix out of nothing, 1, 2, … that makes it different, ignoring case, from the
reserved words and from every name given before.
-/

namespace Typewright

/-- A proposed name: the schema, the title to make the name of, whether the schema has no name in
its document, and a description for it. -/
structure Proposal where
  schema : Nat
  title : String
  generated : Bool := false
  description : Option String := none
  deriving DecidableEq, Repr

/-- A registry of names. `registered` numbers the schemas that it has heard of; `reserved` holds
what no name may equal, in lower case. -/
structure Naming where
  registered : List Nat := []
  proposals : List Proposal := []
  names : List (Nat × String) := []
  reserved : List String := []
  deriving DecidableEq, Repr

namespace Naming

/-- The name of a schema whose title has nothing to make a name of. -/
def defaultName : String := "Schema"

/-- A registry with the given reserved words and no names. -/
def withReserved (words : List String) : Naming :=
  { reserved := words.map Text.lower }

/-- Takes note of a schema. -/
def register (naming : Naming) (schema : Nat) : Naming :=
  if naming.registered.contains schema then naming
  else { naming with registered := naming.registered ++ [schema] }

/-- The place of a schema among those noted. -/
def key? (naming : Naming) (schema : Nat) : Option Nat :=
  naming.registered.findIdx? (· == schema)

/-- The schema at a place among those noted; negative places count from the end. -/
def schemaAt? (naming : Naming) (place : Int) : Option Nat :=
  let index := if place < 0 then place + naming.registered.length else place
  if index < 0 then none else naming.registered[index.toNat]?

/-- The proposal for a schema. -/
def proposal? (naming : Naming) (schema : Nat) : Option Proposal :=
  naming.proposals.find? (·.schema == schema)

/-- Whether a name has been proposed for a schema. -/
def isProposed (naming : Naming) (schema : Nat) : Bool :=
  (naming.proposal? schema).isSome

/-- Proposes a name. Later proposals for the same schema count for nothing. -/
def propose (naming : Naming) (proposal : Proposal) : Naming :=
  let naming := naming.register proposal.schema
  if naming.isProposed proposal.schema then naming
  else { naming with proposals := naming.proposals ++ [proposal] }

/-- Drops the underscores in front of a letter or dollar sign; they mark generated models. -/
def dropMarker (name : List Char) : List Char :=
  match name.dropWhile (· == '_') with
  | c :: rest => if c.isAlpha || c == '$' then c :: rest else name
  | [] => name

/-- The name that a title asks for. -/
def cleanName (title : String) : String :=
  let name := String.ofList (dropMarker (Identifier.ofText title).toList)
  if name = "" then defaultName else name

/-- A name with a suffix, which is left out if it is zero. -/
def withSuffix (name : String) (suffix : Nat) : String :=
  if suffix = 0 then name else name ++ Numeral.decimal suffix

/-- The first of the suffixed forms of a name that is not taken. One more form than there are taken
words is enough to find it. -/
def firstFree (taken : String → Bool) (bound : Nat) (name : String) : String :=
  ((List.range (bound + 1)).map (withSuffix name)).find? (fun form => !taken form) |>.getD name

/-- The unique name for a schema, given what is reserved. -/
def allocate (reserved : List String) (name : String) : String :=
  firstFree (fun form => reserved.contains (Text.lower form)) reserved.length name

/-- The name of a schema. -/
def nameOf? (naming : Naming) (schema : Nat) : Option String :=
  (naming.names.find? (·.1 == schema)).map (·.2)

/-- Whether a schema has a name. -/
def isNamed (naming : Naming) (schema : Nat) : Bool :=
  (naming.nameOf? schema).isSome

/-- Names the schema of a proposal, unless it has a name. -/
def assign (naming : Naming) (proposal : Proposal) : Naming :=
  if naming.isNamed proposal.schema then naming
  else
    let name := allocate naming.reserved (cleanName proposal.title)
    { naming with
      names := naming.names ++ [(proposal.schema, name)]
      reserved := Text.lower name :: naming.reserved }

/-- Names every schema that has a proposal. -/
def finalize (naming : Naming) : Naming :=
  naming.proposals.foldl assign naming

/-- The identifier of a schema: its name in lower case. -/
def idOf? (naming : Naming) (schema : Nat) : Option String :=
  (naming.nameOf? schema).map Text.lower

/-- The description proposed for a schema. -/
def descriptionOf? (naming : Naming) (schema : Nat) : Option String :=
  (naming.proposal? schema).bind (·.description)

/-- Whether the name of a schema was made up for it. -/
def isGenerated (naming : Naming) (schema : Nat) : Bool :=
  ((naming.proposal? schema).map (·.generated)).getD false

/-- The schemas that have names, in the order in which they got them. -/
def namedSchemas (naming : Naming) : List Nat :=
  naming.names.map (·.1)

end Naming

end Typewright
