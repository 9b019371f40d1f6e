import Typewright.Document.Display
import Typewright.Text.Plain
import Typewright.Text.Search

/-!
# Addresses

The parts of an address: a scheme, the authority after two slashes, a path with parameters, a query
and a fragment. Splitting is generous and only refuses an authority that cannot be read: unbalanced
brackets, brackets around what is no address of six groups, and letters that fall apart into
separators. Joining resolves an address relative to another one.
-/

namespace Typewright.Uri

open Text

/-- The parts of an address. -/
structure Parts where
  scheme : List Char := []
  authority : List Char := []
  path : List Char := []
  parameters : List Char := []
  query : List Char := []
  fragment : List Char := []
  deriving DecidableEq, Repr

/-- Why an address cannot be split. -/
inductive Fault
  | brackets
  | host (text : List Char)
  | dottedHost
  | futureHost
  | separators (authority : List Char)
  deriving DecidableEq, Repr

/-- The wording of a fault. -/
def Fault.message : Fault → String
  | brackets => "Invalid IPv6 URL"
  | host text =>
    Display.quoted (String.ofList text) ++ " does not appear to be an IPv4 or IPv6 address"
  | dottedHost => "An IPv4 address cannot be in brackets"
  | futureHost => "IPvFuture address is invalid"
  | separators authority =>
    "netloc '" ++ String.ofList authority ++ "' contains invalid " ++
      "characters under NFKC normalization"

/-- Schemes under which an address can be relative. -/
def relativeSchemes : List String :=
  ["", "ftp", "http", "gopher", "nntp", "imap", "wais", "file", "https", "shttp", "mms",
    "prospero", "rtsp", "rtsps", "rtspu", "sftp", "svn", "svn+ssh", "ws", "wss"]

/-- Schemes with an authority. -/
def authoritySchemes : List String :=
  ["", "ftp", "http", "gopher", "nntp", "telnet", "imap", "wais", "file", "mms", "https", "shttp",
    "snews", "prospero", "rtsp", "rtsps", "rtspu", "rsync", "svn", "svn+ssh", "sftp", "nfs", "git",
    "git+ssh", "ws", "wss"]

/-- Schemes whose paths have parameters. -/
def parameterSchemes : List String :=
  ["", "ftp", "hdl", "prospero", "http", "imap", "https", "shttp", "rtsp", "rtsps", "rtspu", "sip",
    "sips", "mms", "sftp", "tel"]

/-- Whether a scheme is in a list. -/
def listed (schemes : List String) (scheme : List Char) : Bool :=
  schemes.contains (String.ofList scheme)

/-- An address without the controls and blanks in front of it and without tabs and line ends. -/
def clean (text : List Char) : List Char :=
  (text.dropWhile (fun c => c.toNat ≤ 32)).filter fun c => !(c == '\t' || c == '\r' || c == '\n')

/-- Characters of a scheme. -/
def isSchemeChar (c : Char) : Bool :=
  c.isAlphanum || c == '+' || c == '-' || c == '.'

/-- The scheme of an address, in lower case, and what follows its colon. -/
def splitScheme (text : List Char) : List Char × List Char :=
  match cut? [':'] text with
  | some (scheme, rest) =>
    if ((scheme.head?.map Char.isAlpha).getD false) && scheme.all isSchemeChar then
      (scheme.map Char.toLower, rest)
    else ([], text)
  | none => ([], text)

/-- Whether a group of an address of six groups is well formed. -/
def isGroup (group : List Char) : Bool :=
  1 ≤ group.length && group.length ≤ 4 &&
    group.all (fun c => c.isDigit || ('a' ≤ c && c ≤ 'f') || ('A' ≤ c && c ≤ 'F'))

/-- Whether a text is four small numbers with full stops between them. -/
def isDotted (text : List Char) : Bool :=
  let parts := splitAtChar '.' text
  parts.length == 4 && parts.all fun part =>
    1 ≤ part.length && part.length ≤ 3 && part.all Char.isDigit &&
      (part.foldl (fun n d => 10 * n + (d.toNat - 48)) 0) ≤ 255 &&
      (part.length == 1 || part.head? != some '0')

/-- The number of groups in a list of them, the last of which may be dotted. -/
def groupCount? : List (List Char) → Option Nat
  | [] => some 0
  | [last] => if isGroup last then some 1 else if isDotted last then some 2 else none
  | group :: rest => if isGroup group then (groupCount? rest).map (· + 1) else none

/-- Whether a text is an address of eight groups of hexadecimal digits, zeros in one place left
out, and possibly a zone after a percent sign. -/
def isGroupedAddress (text : List Char) : Bool :=
  let (address, zoned) := match cut? ['%'] text with
    | some (address, zone) => (address, !zone.isEmpty && !zone.contains '%')
    | none => (text, true)
  let groups (part : List Char) : Option Nat :=
    if part.isEmpty then some 0 else groupCount? (splitAtChar ':' part)
  zoned && match cut? [':', ':'] address with
    | some (left, right) =>
      match groups left, groups right with
      | some m, some n => m + n ≤ 7
      | _, _ => false
    | none => groups address == some 8

/-- Checks what stands between brackets in an authority. -/
def checkHost (host : List Char) : Except Fault Unit :=
  match host with
  | 'v' :: rest =>
    match cut? ['.'] rest with
    | some (version, address) =>
      if !version.isEmpty && version.all (fun c => isGroup [c]) && !address.isEmpty then .ok ()
      else .error .futureHost
    | none => .error .futureHost
  | _ =>
    if isDotted host then .error .dottedHost
    else if isGroupedAddress host then .ok ()
    else .error (.host host)

/-- Checks the brackets of an authority. -/
def checkBrackets (authority : List Char) : Except Fault Unit :=
  match authority.contains '[', authority.contains ']' with
  | false, false => .ok ()
  | true, true =>
    let inside := ((cut? ['['] authority).map (·.2)).getD []
    checkHost (((cut? [']'] inside).map (·.1)).getD inside)
  | _, _ => .error .brackets

/-- Checks that no letter of an authority falls apart into a separator. -/
def checkLetters (authority : List Char) : Except Fault Unit :=
  let letters := authority.filter fun c => c ∉ ['@', ':', '#', '?']
  if (plain letters).any (['/', '?', '#', '@', ':'].contains ·) then .error (.separators authority)
  else .ok ()

/-- The authority of an address and what follows it. -/
def splitAuthority (text : List Char) : List Char × List Char :=
  match text with
  | '/' :: '/' :: rest =>
    let inside (c : Char) : Bool := !(c == '/' || c == '?' || c == '#')
    (rest.takeWhile inside, rest.dropWhile inside)
  | _ => ([], text)

/-- Splits an address without looking for parameters. -/
def splitPlain (text : List Char) : Except Fault Parts := do
  let (scheme, rest) := splitScheme (clean text)
  let (authority, rest) := splitAuthority rest
  checkBrackets authority
  let (rest, fragment) := (cut? ['#'] rest).getD (rest, [])
  let (path, query) := (cut? ['?'] rest).getD (rest, [])
  checkLetters authority
  return { scheme, authority, path, query, fragment }

/-- The parameters at the end of a path: what follows the first semicolon of its last segment. -/
def splitParameters (path : List Char) : List Char × List Char :=
  let (directory, last) := match cutLast? ['/'] path with
    | some (directory, last) => (directory ++ ['/'], last)
    | none => ([], path)
  match cut? [';'] last with
  | some (name, parameters) => (directory ++ name, parameters)
  | none => (path, [])

/-- Splits the parameters off the path where the scheme has them. -/
def Parts.withParameters (parts : Parts) : Parts :=
  if listed parameterSchemes parts.scheme then
    let (path, parameters) := splitParameters parts.path
    { parts with path, parameters }
  else parts

/-- Splits an address. An address without a scheme gets the given one. -/
def splitUnder (scheme text : List Char) : Except Fault Parts := do
  let parts ← splitPlain text
  let scheme := if parts.scheme.isEmpty then scheme else parts.scheme
  return { parts with scheme }.withParameters

/-- Splits an address. -/
def split (text : List Char) : Except Fault Parts :=
  splitUnder [] text

/-- The text of an address. Empty parts leave no separator. -/
def Parts.text (parts : Parts) : List Char :=
  let path := parts.path ++ (if parts.parameters.isEmpty then [] else ';' :: parts.parameters)
  let rooted :=
    if !parts.authority.isEmpty || ['/', '/'].isPrefixOf path ||
        (!parts.scheme.isEmpty && listed authoritySchemes parts.scheme) then
      let path := if !path.isEmpty && path.head? != some '/' then '/' :: path else path
      '/' :: '/' :: parts.authority ++ path
    else path
  (if parts.scheme.isEmpty then [] else parts.scheme ++ [':']) ++ rooted ++
    (if parts.query.isEmpty then [] else '?' :: parts.query) ++
    (if parts.fragment.isEmpty then [] else '#' :: parts.fragment)

/-- Takes the dots out of segments: one dot stays in place, two go up. -/
def withoutDots (segments : List (List Char)) : List (List Char) :=
  let kept := segments.foldl (fun kept segment =>
    if segment = ['.', '.'] then kept.dropLast
    else if segment = ['.'] then kept
    else kept ++ [segment]) []
  match segments.getLast? with
  | some last => if last = ['.'] ∨ last = ['.', '.'] then kept ++ [[]] else kept
  | none => kept

/-- Leaves out the empty segments between the first and the last one. -/
def withoutGaps (segments : List (List Char)) : List (List Char) :=
  match segments with
  | [] => []
  | first :: rest =>
    first :: (rest.dropLast.filter (!·.isEmpty) ++ rest.getLast?.toList)

/-- The path of an address relative to the path of another one. -/
def joinPaths (base path : List Char) : List Char :=
  let segments :=
    if path.head? = some '/' then splitAtChar '/' path
    else
      let directory := splitAtChar '/' base
      let directory := if directory.getLast? = some [] then directory else directory.dropLast
      withoutGaps (directory ++ splitAtChar '/' path)
  let joined := ['/'].intercalate (withoutDots segments)
  if joined.isEmpty then ['/'] else joined

/-- Resolves an address relative to another one. -/
def join (base address : List Char) : Except Fault (List Char) :=
  if base.isEmpty then .ok address
  else if address.isEmpty then .ok base
  else do
    let b ← split base
    let a ← splitUnder b.scheme address
    if a.scheme ≠ b.scheme ∨ !listed relativeSchemes a.scheme then return address
    else if listed authoritySchemes a.scheme && !a.authority.isEmpty then return a.text
    else
      let authority := if listed authoritySchemes a.scheme then b.authority else a.authority
      if a.path.isEmpty && a.parameters.isEmpty then
        let query := if a.query.isEmpty then b.query else a.query
        return { a with authority, path := b.path, parameters := b.parameters, query }.text
      else return { a with authority, path := joinPaths b.path a.path }.text

/-- An address without its fragment, and the fragment. -/
def withoutFragment (address : List Char) : Except Fault (List Char × List Char) :=
  if address.contains '#' then do
    let parts ← split address
    return ({ parts with fragment := [] }.text, parts.fragment)
  else .ok (address, [])

/-- An address in the form under which documents are kept. -/
def canonical (address : List Char) : Except Fault (List Char) :=
  (splitPlain address).map Parts.text

end Typewright.Uri
