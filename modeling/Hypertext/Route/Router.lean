/-
Routers collect routes; a sealed router has become a table in which routes are found. The routes of a method are
kept in the order of specificity, so that the first one that matches is the one to take.
-/
import Hypertext.Handler.Basic
import Hypertext.Message.Method
import Hypertext.Route.ApiDocument
import Hypertext.Route.Pattern

namespace Hypertext

/-- What a router has for a route: a handler, or the promise to describe all routes once they are known. -/
inductive Endpoint
  | handler (h : Handler)
  | document (title version : String)

inductive RouteError
  | conflict (method : Method) (pattern existing : String)
  | invalidPattern (pattern : String) (error : PatternError)
  | isSealed
  deriving DecidableEq, Repr

def RouteError.message : RouteError → String
  | .conflict method pattern existing =>
    s!"route {method.text} {pattern} is ambiguous with already registered {method.text} {existing}"
  | .invalidPattern pattern e => s!"invalid route pattern {Text.quote pattern}: {e.message}"
  | .isSealed => "routes cannot be registered once the router is sealed for serving"

/-- Routes under construction. -/
structure Router where
  routes : List (Route Endpoint)
  isSealed : Bool

/-- Routes to be searched. -/
structure Table where
  routes : List (Route Handler)

namespace Router

def empty : Router := ⟨[], false⟩

def size (r : Router) : Nat := r.routes.length

/-- Puts a route before the first route of its method that is less specific, or at the end. -/
def place {α : Type} (new : Route α) : List (Route α) → List (Route α)
  | [] => [new]
  | r :: rest =>
    if r.method == new.method && r.pattern.compareSpecificity new.pattern == .gt then new :: r :: rest
    else r :: place new rest

/-- The route of this method with which a pattern would be ambiguous. -/
def rival? {α : Type} (method : Method) (pattern : Pattern) (routes : List (Route α)) : Option (Route α) :=
  routes.find? fun r => r.method == method && r.pattern.isAmbiguousWith pattern

def register (method : Method) (pattern : String) (endpoint : Endpoint) (r : Router) : Except RouteError Router := do
  if r.isSealed then throw .isSealed
  let compiled ← (Pattern.parse pattern).mapError (.invalidPattern pattern)
  match rival? method compiled r.routes with
  | some existing => throw (.conflict method pattern existing.pattern.raw)
  | none => return { r with routes := place ⟨method, compiled, endpoint⟩ r.routes }

/-- Adds a route that serves a description of all routes. -/
def serveDocument (path title version : String) (r : Router) : Except RouteError Router :=
  r.register .get path (.document title version)

/-- The handler of an endpoint, when the routes are known. -/
def finish (all : List (Route Endpoint)) (route : Route Endpoint) : Handler :=
  match route.endpoint with
  | .handler h => h
  | .document title version =>
    let response := Response.ofJson (ApiDocument.describe title version route.pattern.raw all)
    fun _ => ⟨0, .response response⟩

/-- Seals the router: makes the table and leaves an empty router that accepts no routes. -/
def toTable (r : Router) : Router × Table :=
  (⟨[], true⟩, ⟨r.routes.map fun route => ⟨route.method, route.pattern, finish r.routes route⟩⟩)

end Router

inductive LookupError
  | notFound (path : String)
  | methodNotAllowed (method : Method) (path : String) (allowed : List Method)
  deriving DecidableEq, Repr

def LookupError.message : LookupError → String
  | .notFound path => s!"no route matches {path}"
  | .methodNotAllowed method path _ => s!"method {method.text} is not allowed for {path}"

structure Found where
  route : Route Handler
  params : PathParams

namespace Table

def empty : Table := ⟨[]⟩

def size (t : Table) : Nat := t.routes.length

/-- The methods, in order, for which some route matches. -/
def allowedParts (t : Table) (path : List String) : List Method :=
  (((t.routes.filter fun r => (r.pattern.match? path).isSome).map (·.method)).eraseDups).mergeSort Method.le

/-- The methods with which a path can be requested. -/
def allowed (t : Table) (path : String) : List Method := t.allowedParts (splitPath path)

/-- The first route of a method that matches. -/
def first? (t : Table) (method : Method) (path : List String) : Option Found :=
  t.routes.findSome? fun r =>
    if r.method == method then (r.pattern.match? path).map fun params => ⟨r, params⟩ else none

def find (t : Table) (method : Method) (path : String) : Except LookupError Found :=
  match t.first? method (splitPath path) with
  | some found => .ok found
  | none =>
    match t.allowed path with
    | [] => .error (.notFound path)
    | methods => .error (.methodNotAllowed method path methods)

end Table

end Hypertext
