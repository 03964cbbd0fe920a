/-
Path patterns. A pattern is a list of segments, each a literal, a name that captures one segment of a path, or,
at the end, a wildcard that captures all that is left. Empty segments do not count, in patterns and in paths.
-/
import Hypertext.Route.Params
import Hypertext.Text.Split

namespace Hypertext

inductive Segment
  | literal (text : String)
  | capture (name : String)
  | wildcard (name : String)
  deriving DecidableEq, Repr

namespace Segment

/-- Lower ranks are more specific. -/
def rank : Segment → Nat
  | .literal _ => 0
  | .capture _ => 1
  | .wildcard _ => 2

/-- Two segments of one kind; literals have to be equal as well. -/
def sameShape : Segment → Segment → Bool
  | .literal a, .literal b => a == b
  | .capture _, .capture _ => true
  | .wildcard _, .wildcard _ => true
  | _, _ => false

/-- The name under which the segment captures. -/
def name? : Segment → Option String
  | .literal _ => none
  | .capture name => some name
  | .wildcard name => some name

def isWildcard : Segment → Bool
  | .wildcard _ => true
  | _ => false

end Segment

inductive PatternError
  | missingLeadingSlash
  | emptyName
  | duplicateName
  | wildcardNotLast
  deriving DecidableEq, Repr

def PatternError.message : PatternError → String
  | .missingLeadingSlash => "pattern must start with '/'"
  | .emptyName => "parameter segment needs a name after ':'"
  | .duplicateName => "parameter name used twice"
  | .wildcardNotLast => "wildcard must be the last segment"

/-- The segments of a path that are not empty. -/
def splitPath (path : String) : List String := (Text.split '/' path).filter (· != "")

/-- A pattern, with the text it was read from. -/
structure Pattern where
  raw : String
  segments : List Segment
  deriving DecidableEq, Repr

namespace Pattern

/-- The name of a wildcard that is given none. -/
def defaultWildcard : String := "wildcard"

/-- Reads one segment: a colon begins a capture, a star a wildcard. -/
def readSegment (text : String) : Except PatternError Segment :=
  match text.toList with
  | ':' :: [] => .error .emptyName
  | ':' :: name => .ok (.capture (String.ofList name))
  | '*' :: [] => .ok (.wildcard defaultWildcard)
  | '*' :: name => .ok (.wildcard (String.ofList name))
  | _ => .ok (.literal text)

/-- Reads segments after others that capture under the names `seen`. -/
def readSegments : (seen : List String) → List String → Except PatternError (List Segment)
  | _, [] => .ok []
  | seen, text :: rest => do
    let s ← readSegment text
    let names := s.name?.toList
    if names.any seen.contains then throw .duplicateName
    if s.isWildcard && !rest.isEmpty then throw .wildcardNotLast
    return s :: (← readSegments (seen ++ names) rest)

def parse (text : String) : Except PatternError Pattern :=
  if text.toList.head? == some '/' then (readSegments [] (splitPath text)).map fun s => ⟨text, s⟩
  else .error .missingLeadingSlash

/-- The names under which the pattern captures, in order. -/
def names (p : Pattern) : List String := p.segments.filterMap Segment.name?

/-- The ranks of the segments; patterns are ordered by them, the most specific first. -/
def ranks (p : Pattern) : List Nat := p.segments.map Segment.rank

/-- Neither pattern is more specific, and some path matches both. -/
def isAmbiguousWith (p q : Pattern) : Bool :=
  p.segments.length == q.segments.length && (p.segments.zip q.segments).all fun s => s.1.sameShape s.2

/-- Compares two lists at the first place where they differ; a list comes before those it begins. -/
def compareRanks : List Nat → List Nat → Ordering
  | [], [] => .eq
  | [], _ :: _ => .lt
  | _ :: _, [] => .gt
  | a :: as, b :: bs => (compare a b).then (compareRanks as bs)

def compareSpecificity (p q : Pattern) : Ordering := compareRanks p.ranks q.ranks

/-- Matches segments against the parts of a path, adding to what has been captured. -/
def matchSegments : List Segment → List String → PathParams → Option PathParams
  | [], [], params => some params
  | [], _ :: _, _ => none
  | .literal text :: segments, part :: path, params => if part == text then matchSegments segments path params else none
  | .capture name :: segments, part :: path, params => matchSegments segments path (params.insert name part)
  | .wildcard name :: _, path, params => some (params.insert name (Text.join "/" path))
  | _ :: _, [], _ => none

/-- What a path, given by its parts, captures if it matches. -/
def match? (p : Pattern) (path : List String) : Option PathParams := matchSegments p.segments path .empty

end Pattern

end Hypertext
