/-
The API document: a JSON object that lists every route with its path parameters.
-/
import Hypertext.Json.Basic
import Hypertext.Message.Method
import Hypertext.Message.Status
import Hypertext.Route.Pattern

namespace Hypertext

/-- A method and a pattern with what they lead to. -/
structure Route (α : Type) where
  method : Method
  pattern : Pattern
  endpoint : α

namespace ApiDocument

/-- The key of an operation; only some methods can be described. -/
def verb? : Method → Option String
  | .get => some "get"
  | .post => some "post"
  | .put => some "put"
  | .delete => some "delete"
  | .patch => some "patch"
  | .head => some "head"
  | .options => some "options"
  | _ => none

/-- The pattern with captured names in braces. -/
def template (p : Pattern) : String :=
  let part : Segment → String
    | .literal text => "/" ++ text
    | .capture name => "/\x7b" ++ name ++ "\x7d"
    | .wildcard name => "/\x7b" ++ name ++ "\x7d"
  if p.segments.isEmpty then "/" else String.join (p.segments.map part)

def parameter (name : String) : Json :=
  .ofMembers [("name", .string name), ("in", .string "path"), ("required", .bool true),
    ("schema", .ofMembers [("type", .string "string")])]

/-- What is said of a route. -/
def operation (p : Pattern) : Json :=
  let outcome := fun (s : Status) => (toString s.code, Json.ofMembers [("description", .string s.reason)])
  let responses := ("responses", Json.ofMembers [outcome .ok, outcome .internalServerError])
  if p.names.isEmpty then .ofMembers [responses]
  else .ofMembers [responses, ("parameters", .array (p.names.map parameter))]

/-- Whether one route is listed before another: by the text of the pattern, then by method. -/
def before {α : Type} (a b : Route α) : Bool :=
  if a.pattern.raw = b.pattern.raw then a.method.le b.method else a.pattern.raw < b.pattern.raw

def addOperation {α : Type} (paths : List (String × Json)) (r : Route α) : List (String × Json) :=
  match verb? r.method with
  | none => paths
  | some verb =>
    let path := template r.pattern
    let item := match (Json.object paths).get? path with
      | some (.object members) => members
      | _ => []
    Json.insert path (.object (Json.insert verb (operation r.pattern) item)) paths

/-- The document served at a path; it does not list itself. -/
def describe {α : Type} (title version path : String) (routes : List (Route α)) : Json :=
  let listed := routes.filter fun r => !(r.method == .get && r.pattern.raw == path)
  .ofMembers
    [("openapi", .string "3.1.0"),
      ("info", .ofMembers [("title", .string title), ("version", .string version)]),
      ("paths", .object ((listed.mergeSort before).foldl addOperation []))]

end ApiDocument

end Hypertext
