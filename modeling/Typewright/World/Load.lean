import Typewright.Text.Search
import Typewright.Uri.Parts
import Typewright.Uri.Percent
import Typewright.World.Path
import Typewright.World.Readers

/-!
# Loading documents

A document is a text, in JSON or else in YAML, whose root is an object. It is loaded from a file or
over the web. The errors name the place that was asked for.
-/

namespace Typewright

open Text

namespace Load

/-- Reads a text as a document. The locator shows in errors. -/
def parse (text locator : String) (readers : Readers := .atHand) : Except Error Document := do
  let document ←
    match readers.json text with
    | .ok document => pure document
    | .error (.other error) => throw (.foreign error)
    | .error .own =>
      match readers.yaml text with
      | .ok document => pure document
      | .error (.other error) => throw (.foreign error)
      | .error .own => throw (.resolution locator .invalidText)
  if document.graph.isMapping document.root then return document
  else throw (.resolution locator .rootNotObject)

/-- A text with all line ends as line feeds. -/
def withLineFeeds (text : List Char) : List Char :=
  (replacePair '\r' '\n' ['\n'] text).map fun c => if c = '\r' then '\n' else c

/-- An error of splitting an address. -/
def addressError (fault : Uri.Fault) : Error :=
  .badValue (.address fault.message)

/-- Whether an address is one of the web. -/
def isWeb (parts : Uri.Parts) : Bool :=
  parts.scheme == "http".toList || parts.scheme == "https".toList

/-- Whether a locator is an address of the web. -/
def isUrl (locator : String) : Except Error Bool :=
  match Uri.split locator.toList with
  | .ok parts => .ok (isWeb parts)
  | .error fault => .error (addressError fault)

/-- The address of the file at a path from the root. -/
def fileUri (place : String) : String :=
  "file://" ++ Uri.encode place

section

variable {m : Type → Type} [Monad m]

/-- Reads the text of a file. -/
def readText (outside : Outside m) (path : String) : Loading m String := do
  if path.toList.contains (Char.ofNat 0) then throw (.badValue .nullByte)
  let answer : Except FileFault (List UInt8) ← ExceptT.lift (outside.readFile path)
  match answer with
  | .error fault => throw (.resolution path (.unreadable fault path))
  | .ok bytes =>
    match Utf8.decode bytes with
    | .error failure => throw (.undecodable failure)
    | .ok text => return String.ofList (withLineFeeds text.toList)

/-- Loads a document over the web. -/
def fetchDocument (outside : Outside m) (address : String) : Loading m Document := do
  let answer : Except Refusal String ← ExceptT.lift (outside.fetch address)
  match answer with
  | .error .own => throw (.resolution address .unfetchable)
  | .error (.other error) => throw (.foreign error)
  | .ok text => parse text address outside.readers

/-- Loads a document from a file; the locator shows in errors about its text. -/
def fileDocument (outside : Outside m) (path locator : String) : Loading m Document := do
  let text ← readText outside path
  parse text locator outside.readers

/-- Loads the document at a locator, which is an address of the web or a path. -/
def document (outside : Outside m) (locator : String) : Loading m Document := do
  if ← isUrl locator then fetchDocument outside locator
  else fileDocument outside locator locator

/-- Loads the document that a reference names by its address. The path of a file address is taken
as it is written. -/
def fromUri (outside : Outside m) (uri : String) : Loading m Document := do
  match Uri.split uri.toList with
  | .error fault => throw (addressError fault)
  | .ok parts =>
    if isWeb parts then fetchDocument outside uri
    else if parts.scheme = "file".toList then
      fileDocument outside (String.ofList parts.path) uri
    else fileDocument outside uri uri

/-- The address that references in the document at a locator are relative to. A path is resolved
first. -/
def baseAddress (resolve : String → m String) (locator : String) : Loading m String := do
  if ← isUrl locator then return locator
  else return fileUri (← ExceptT.lift (resolve locator))

end

/-- The address that references in the document at a locator are relative to, where no path goes
through a link. -/
def baseUri (directory locator : String) : Except Error String :=
  (baseAddress (m := Id) (Path.absolute directory) locator).run

end Load

end Typewright
