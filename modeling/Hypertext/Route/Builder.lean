/-
A router as its calls build it up. Calls change it in place: what a call has done before it fails stays done. The
routes of each method are kept in a branch of their own. A document has a page, which is blank until the router is sealed.
-/
import Hypertext.Route.Directory

namespace Hypertext

/-- What a route leads to: a handler, or the document that is written on a page. -/
inductive Destination
  | handler (h : Handler)
  | page (number : Nat)

/-- The routes of a method. -/
structure Branch where
  method : Method
  routes : List (Route Destination)

/-- A document that is written when the router is sealed. -/
structure PendingDocument where
  path : String
  title : String
  version : String
  page : Nat

structure Builder where
  branches : List Branch
  pending : List PendingDocument
  pages : List (Option Bytes)
  isSealed : Bool

namespace Builder

/-- A call either gives something or fails; it changes the builder in both cases. -/
abbrev Act (α : Type) := ExceptT RouteError (StateM Builder) α

/-- The outcome of an act and the builder after it. -/
def runOn {α : Type} (act : Act α) (b : Builder) : Except RouteError α × Builder := act.run.run b

def empty : Builder := ⟨[], [], [], false⟩

/-! ## Routes -/

def routes (b : Builder) : List (Route Destination) := b.branches.flatMap (·.routes)

def size (b : Builder) : Nat := b.branches.foldl (fun n branch => n + branch.routes.length) 0

def routesOf (method : Method) (b : Builder) : List (Route Destination) :=
  ((b.branches.find? (·.method == method)).map (·.routes)).getD []

/-- A branch for a method, unless there is one. -/
def openBranch (method : Method) (b : Builder) : Builder :=
  if b.branches.any (·.method == method) then b else { b with branches := b.branches ++ [⟨method, []⟩] }

/-- Puts a route before the first one that is less specific, or at the end. -/
def insertRoute (new : Route Destination) (routes : List (Route Destination)) : List (Route Destination) :=
  routes.insertIdx (routes.findIdx fun r => r.pattern.compareSpecificity new.pattern == .gt) new

/-- Puts a route in the branch of its method. -/
def insert (new : Route Destination) (b : Builder) : Builder :=
  { b with branches := b.branches.map fun branch =>
      if branch.method == new.method then { branch with routes := insertRoute new branch.routes } else branch }

def register (method : Method) (pattern : String) (goal : Destination) : Act Unit := do
  if (← get).isSealed then throw .isSealed
  let compiled ← MonadExcept.ofExcept ((Pattern.parse pattern).mapError (RouteError.invalidPattern pattern))
  modify (openBranch method)
  match ((← get).routesOf method).find? fun r => r.pattern.isAmbiguousWith compiled with
  | some existing => throw (.conflict method pattern existing.pattern.raw)
  | none => modify (insert ⟨method, compiled, goal⟩)

def serveAssets (base : String) (entries : List (String × Bytes)) : Act Unit :=
  register .get (FileRoute.pattern base) (.handler (Assets.ofList entries).handler)

def serveDirectory (base : String) (d : Directory) : Act Unit :=
  register .get (FileRoute.pattern base) (.handler d.handler)

/-! ## Documents -/

/-- A new page, with its number. -/
def newPage : Act Nat := modifyGet fun b => (b.pages.length, { b with pages := b.pages ++ [none] })

/-- Adds a route that serves a description of all routes. -/
def serveDocument (path title version : String) : Act Unit := do
  let page ← newPage
  register .get path (.page page)
  modify fun b => { b with pending := b.pending ++ [⟨path, title, version, page⟩] }

/-- Writes a page, unless it has been written on. -/
def writePage (number : Nat) (content : Bytes) (pages : List (Option Bytes)) : List (Option Bytes) :=
  pages.modify number fun page => some (page.getD content)

/-- Writes the page of a document. -/
def publish (routes : List (Route Destination)) (pages : List (Option Bytes)) (d : PendingDocument) : List (Option Bytes) :=
  writePage d.page (Bytes.ofText (ApiDocument.describe d.title d.version d.path routes).text) pages

/-! ## Sealing -/

/-- The branches of a sealed router. -/
structure Listing where
  branches : List Branch

/-- Seals the router: writes the documents and leaves an empty router that accepts no routes. -/
def toListing : Act Listing := modifyGet fun b =>
  (⟨b.branches⟩, { branches := [], pending := [], pages := b.pending.foldl (publish b.routes) b.pages, isSealed := true })

/-- The handler of a route, when this is on the pages. -/
def handlerOf (pages : List (Option Bytes)) : Destination → Handler
  | .handler h => h
  | .page number => .immediate fun _ =>
    match pages[number]?.join with
    | some content => .ok (((Response.new .ok).withHeader "Content-Type" "application/json").withBody content)
    | none => .error (.status .serviceUnavailable "API document unavailable")

/-- The table that is searched, when this is on the pages. -/
def Listing.table (pages : List (Option Bytes)) (listing : Listing) : Table :=
  ⟨(listing.branches.flatMap (·.routes)).map fun r => ⟨r.method, r.pattern, handlerOf pages r.endpoint⟩⟩

/-- A call to a router; those that are named after a method are `register` with that method. -/
inductive Call
  | register (method : Method) (pattern : String) (h : Handler)
  | serveAssets (base : String) (entries : List (String × Bytes))
  | serveDirectory (base : String) (d : Directory)
  | serveDocument (path title version : String)
  | sealing

/-- What a call does; only sealing gives something. -/
def Call.act : Call → Act (Option Listing)
  | .register method pattern h => do Builder.register method pattern (.handler h); return none
  | .serveAssets base entries => do Builder.serveAssets base entries; return none
  | .serveDirectory base d => do Builder.serveDirectory base d; return none
  | .serveDocument path title version => do Builder.serveDocument path title version; return none
  | .sealing => some <$> toListing

/-- The outcome of a call and the builder after it. -/
def perform (c : Call) (b : Builder) : Except RouteError (Option Listing) × Builder := runOn c.act b

end Builder

end Hypertext
