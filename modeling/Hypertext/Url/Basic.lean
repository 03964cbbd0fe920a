/-
URLs, as far as a client needs them: every URL has a scheme, and those of the schemes with hosts known here have a
host, a port, a path and a query.
-/
import Hypertext.Url.Host
import Hypertext.Url.Path

namespace Hypertext

/-- A URL without its fragment. -/
structure Url where
  scheme : String
  host : String
  port : Option Nat
  path : String
  query : Option String
  deriving DecidableEq, Repr

namespace Url

/-- The port that a scheme implies, for the schemes in which a host always follows. -/
def defaultPort? : String → Option Nat
  | "http" | "ws" => some 80
  | "https" | "wss" => some 443
  | "ftp" => some 21
  | _ => none

/-- The text of a URL without control characters and spaces at the ends and without tabs and line ends. -/
def cleaned (text : String) : List Char :=
  ((Text.trimBy (fun c => c.toNat ≤ 0x20) text).toList).filter fun c => !(c == '\t' || c == '\n' || c == '\r')

/-- A scheme in small letters and what follows its colon. -/
def scheme? (cs : List Char) : Option (String × List Char) := do
  let (name, rest) ← Text.cutList? ':' cs
  let first ← name.head?
  if first.isAlpha && name.all fun c => c.isAlphanum || ['+', '-', '.'].contains c then
    some (Text.lower (String.ofList name), rest)
  else none

/-- Whether the character ends the part of a URL that names user, host and port. -/
def endsAuthority (backslash : Bool) (c : Char) : Bool :=
  c == '/' || c == '?' || c == '#' || (backslash && c == '\\')

/-- What follows the last at sign; what stands before it names a user. -/
def afterUser (authority : List Char) : List Char := (authority.reverse.takeWhile (· != '@')).reverse

/-- The host up to a colon outside of brackets, and the port after it. -/
def splitPort : (inBrackets : Bool) → List Char → List Char × Option (List Char)
  | _, [] => ([], none)
  | inBrackets, c :: rest =>
    if c == ':' && !inBrackets then ([], some rest)
    else
      let (host, port) := splitPort (if c == '[' then true else if c == ']' then false else inBrackets) rest
      (c :: host, port)

def readPort (digits : List Char) : Except Error (Option Nat) :=
  if digits.all Text.isDigit then
    if digits.isEmpty then .ok none
    else if Text.digitsValue digits ≤ 65535 then .ok (some (Text.digitsValue digits))
    else .error .port
  else .error .port

/-- The query after the path, up to the fragment. -/
def queryOf : List Char → Option String
  | '?' :: rest => some (String.ofList (percentEncode escapeInQuery (rest.takeWhile (· != '#'))))
  | _ => none

/-- The host and the port of an authority. An empty host may neither be required nor have a user or a port. -/
def hostAndPort (required : Bool) (authority : List Char) : Except Error (String × Option Nat) := do
  let (hostPart, portPart) := splitPort false (afterUser authority)
  if hostPart.isEmpty && (required || portPart.isSome || authority.contains '@') then throw .emptyHost
  let text := String.ofList hostPart
  let h ← if required then readHost text else opaqueHost text
  let port ← match portPart with
    | some digits => readPort digits
    | none => pure none
  return (h, port)

/-- The parts after a scheme and the slashes that follow it. -/
def afterSlashes (scheme : String) (cs : List Char) : Except Error Url := do
  let implied := defaultPort? scheme
  let authority := cs.takeWhile fun c => !endsAuthority implied.isSome c
  let rest := cs.drop authority.length
  let (h, port) ← hostAndPort implied.isSome authority
  let pathPart := rest.takeWhile fun c => c != '?' && c != '#'
  return {
    scheme
    host := h
    port := if port == implied then none else port
    path := readPath pathPart
    query := queryOf (rest.drop pathPart.length) }

/-- A URL whose scheme is followed by no host. -/
def withoutHost (scheme : String) (cs : List Char) : Url :=
  let pathPart := cs.takeWhile fun c => c != '?' && c != '#'
  { scheme, host := "", port := none, path := String.ofList (percentEncode isControl pathPart),
    query := queryOf (cs.drop pathPart.length) }

/-- A URL of a file: a host, where there is one, has to be a host. -/
def ofFile (cs : List Char) : Except Error Url := do
  let isSlash := fun c => c == '/' || c == '\\'
  match cs with
  | a :: b :: rest =>
    if isSlash a && isSlash b then
      let name := String.ofList (rest.takeWhile fun c => !endsAuthority true c)
      let h ← if name == "" || isDrive name then pure "" else readHost name
      return { withoutHost "file" (rest.drop name.length) with host := h }
    else return withoutHost "file" cs
  | _ => return withoutHost "file" cs

def parse (text : String) : Except Error Url :=
  match scheme? (cleaned text) with
  | none => .error .relative
  | some (scheme, rest) =>
    if (defaultPort? scheme).isSome then afterSlashes scheme (rest.dropWhile fun c => c == '/' || c == '\\')
    else if scheme == "file" then ofFile rest
    else match rest with
      | '/' :: '/' :: rest => afterSlashes scheme rest
      | _ => .ok (withoutHost scheme rest)

end Url

end Hypertext
