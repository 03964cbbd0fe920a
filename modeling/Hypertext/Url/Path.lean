/-
Paths of URLs: segments between slashes, with steps to the same and to the upper level taken.
-/
import Hypertext.Text.Ascii
import Hypertext.Url.Percent

namespace Hypertext.Url

/-- A step to the upper level, a point perhaps written as an encoded byte. -/
def isUpStep (segment : String) : Bool :=
  ["..", ".%2e", "%2e.", "%2e%2e"].contains (Text.lower segment)

/-- A step to the same level. -/
def isSameStep (segment : String) : Bool := [".", "%2e"].contains (Text.lower segment)

/-- The name of a drive: a letter and a colon or a bar. -/
def isDrive (segment : String) : Bool :=
  match segment.toList with
  | [c, d] => c.isAlpha && (d == ':' || d == '|')
  | _ => false

/-- The level above; a drive at the end is kept. -/
def parent (segments : List String) : List String :=
  match segments.getLast? with
  | some last => if isDrive last then segments else segments.dropLast
  | none => []

/-- Appends segments one by one, taking steps; after a step at the end comes an empty segment. -/
def takeSteps : (walked : List String) → List String → List String
  | walked, [] => walked
  | walked, s :: rest =>
    let closing := if rest.isEmpty then [""] else []
    if isUpStep s then takeSteps (parent walked ++ closing) rest
    else if isSameStep s then takeSteps (walked ++ closing) rest
    else takeSteps (walked ++ [s]) rest

/-- The path for the part of a URL after its host; a backslash counts as a slash. -/
def readPath (cs : List Char) : String :=
  let plain := cs.map fun c => if c == '\\' then '/' else c
  let below := match plain with
    | '/' :: rest => rest
    | _ => plain
  let segments := (below.splitOn '/').map fun s => String.ofList (percentEncode escapeInPath s)
  "/" ++ "/".intercalate (takeSteps [] segments)

end Hypertext.Url
