import Typewright.Reference.Link
import Typewright.Text.Utf8
import Typewright.Toml.Codec

/-!
# Worlds given as data

A world is a file system and a web that are known in full: files by their absolute paths,
directories, and answers by address. There are no links. Looking up a path goes through its segments
one by one, so that a missing or misplaced directory on the way is noticed. A world answers the
questions of `Outside` with the packages at hand, and a command that changes files runs in a
`Session`, which keeps the world as it has become and what was printed.
-/

namespace Typewright

open Text

/-- An answer to a web request: its status, its text, and where it redirects to. -/
structure Response where
  status : Nat
  body : String
  location : Option String
  deriving DecidableEq, Repr

/-- How many redirections are followed. -/
def Response.maxRedirects : Nat := 20

/-- Where an answer sends to, if it sends elsewhere. -/
def Response.redirectTarget? (response : Response) : Option String :=
  if [301, 302, 303, 307, 308].contains response.status then response.location else none

/-- A file system and a web. Every path is absolute and without dots. -/
structure World where
  directory : String
  files : List (String × List UInt8)
  directories : List String
  web : List (String × Response)

namespace World

/-- What a path leads to. -/
inductive Entry
  | file (bytes : List UInt8)
  | directory
  deriving Repr

/-- A path from its segments. -/
def pathOf (segments : List (List Char)) : String :=
  "/" ++ String.ofList (['/'].intercalate segments)

/-- What stands at the end of segments without dots. -/
def entryAt? (w : World) (segments : List (List Char)) : Option Entry :=
  let path := pathOf segments
  let under := (path ++ (if segments.isEmpty then "" else "/")).toList
  match w.files.find? (·.1 == path) with
  | some (_, bytes) => some (.file bytes)
  | none =>
    if segments.isEmpty || w.directories.contains path || w.directory == path ||
        under.isPrefixOf w.directory.toList || w.files.any (under.isPrefixOf ·.1.toList) ||
        w.directories.any (under.isPrefixOf ·.toList) then
      some .directory
    else none

/-- Goes along segments from a directory. -/
def lookUpFrom (w : World) : List (List Char) → List (List Char) →
    Except FileFault (List (List Char) × Entry)
  | here, [] =>
    match w.entryAt? here with
    | some entry => .ok (here, entry)
    | none => .error .missing
  | here, segment :: rest =>
    match w.entryAt? here with
    | none => .error .missing
    | some (.file _) => .error .notDirectory
    | some .directory =>
      if segment.isEmpty ∨ segment = ['.'] then lookUpFrom w here rest
      else if segment = ['.', '.'] then lookUpFrom w here.dropLast rest
      else if 255 < (Utf8.encode (String.ofList segment)).length then .error .nameTooLong
      else lookUpFrom w (here ++ [segment]) rest

/-- The segments at which a path begins, and those along which it goes. -/
def origin (w : World) (path : List Char) : List (List Char) × List (List Char) :=
  (if path.head? = some '/' then [] else Path.normalSegments w.directory.toList,
    splitAtChar '/' path)

/-- What a path leads to, and the path of it without dots. -/
def lookUp (w : World) (path : String) : Except FileFault (String × Entry) :=
  if path = "" then .error .missing
  else
    let (here, along) := w.origin path.toList
    (w.lookUpFrom here along).map fun (segments, entry) => (pathOf segments, entry)

/-- The bytes of a file. -/
def read (w : World) (path : String) : Except FileFault (List UInt8) :=
  match w.lookUp path with
  | .ok (_, .file bytes) => .ok bytes
  | .ok (_, .directory) => .error .isDirectory
  | .error fault => .error fault

/-- The answer to a web request. -/
def answer? (w : World) (address : String) : Option Response :=
  (w.web.find? (·.1 == address)).map (·.2)

/-- Requests an address and follows redirections, at most the given number of them. -/
def request (w : World) : Nat → String → Option String
  | redirects, address => do
    let response ← w.answer? address
    match response.redirectTarget?, redirects with
    | some _, 0 => none
    | some target, redirects + 1 =>
      match Uri.join address.toList target.toList with
      | .ok next => request w redirects (String.ofList next)
      | .error _ => none
    | none, _ => if 200 ≤ response.status ∧ response.status < 300 then some response.body else none

/-- The text at an address. A request without one is refused. -/
def fetch (w : World) (address : String) : Except Refusal String :=
  match w.request Response.maxRedirects address with
  | some text => .ok text
  | none => .error .own

/-- What a path leads to, if it leads anywhere. -/
def kindOf (w : World) (path : String) : Option PathKind :=
  match w.lookUp path with
  | .ok (_, .file _) => some .file
  | .ok (_, .directory) => some .directory
  | .error _ => none

/-- The directory that a path leads into, and the name in it; there is no name if the path ends in a
slash or in dots. -/
def placeOf (w : World) (path : String) : Except FileFault (List (List Char) × List Char) := do
  if path = "" then throw .missing
  let (here, along) := w.origin path.toList
  let (directory, entry) ← w.lookUpFrom here along.dropLast
  let name := along.getLastD []
  match entry with
  | .file _ => throw .notDirectory
  | .directory =>
    if name = ['.'] ∨ name = ['.', '.'] then return (directory, [])
    else if 255 < (Utf8.encode (String.ofList name)).length then throw .nameTooLong
    else return (directory, name)

/-- The world with a file at a path. -/
def write (w : World) (path : String) (bytes : List UInt8) : Except FileFault World := do
  let (directory, name) ← w.placeOf path
  if name.isEmpty then throw .isDirectory
  let place := directory ++ [name]
  match w.entryAt? place with
  | some .directory => throw .isDirectory
  | some (.file _) =>
    let files := w.files.map fun (path, old) => (path, if path = pathOf place then bytes else old)
    return { w with files }
  | none => return { w with files := w.files ++ [(pathOf place, bytes)] }

/-- The world with a directory at a path where nothing was. -/
def makeDirectory (w : World) (path : String) : Except FileFault World := do
  let path := String.ofList (Path.dropSlashes path.toList)
  let (directory, name) ← w.placeOf path
  let place := directory ++ [name]
  if name.isEmpty ∨ (w.entryAt? place).isSome then throw .alreadyThere
  return { w with directories := w.directories ++ [pathOf place] }

/-- A world as the outside of a program that does not change it. -/
def outside (w : World) : Outside Id where
  readFile path := w.read path
  resolve path := Path.absolute w.directory path
  fetch address := w.fetch address
  readers := .atHand
  link := Reference.link

/-- A world without files and without a web. -/
def empty : World where
  directory := "/"
  files := []
  directories := []
  web := []

end World

/-- A world and what was printed in it. -/
structure Session where
  world : World
  printed : String := ""

namespace Session

/-- Changes the world, unless there is a fault. -/
def change (step : World → Except FileFault World) : StateM Session (Except FileFault Unit) :=
  fun s =>
    match step s.world with
    | .ok world => (.ok (), { s with world })
    | .error fault => (.error fault, s)

/-- The abilities of a command in a session that begins in a directory. -/
def shell (directory : String) (toml : TomlCodec := Toml.codec) : Shell (StateM Session) where
  readFile path := return (← get).world.read path
  resolve path := return Path.absolute directory path
  fetch address := return (← get).world.fetch address
  readers := .atHand
  link := Reference.link
  kindOf path := return (← get).world.kindOf path
  writeFile path bytes := change (·.write path bytes)
  makeDirectory path := change (·.makeDirectory path)
  print text := modify fun s => { s with printed := s.printed ++ text }
  toml

end Session

end Typewright
