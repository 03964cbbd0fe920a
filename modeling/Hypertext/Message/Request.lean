/-
Requests: a method, a path with an optional query, header fields and a body.
-/
import Hypertext.Message.Body
import Hypertext.Message.Head
import Hypertext.Message.Method

namespace Hypertext

/-- A request. The query is the part of the target after its first question mark. -/
structure Request where
  method : Method
  path : String
  query : Option String
  version : Version
  headers : Headers
  body : Bytes
  deriving DecidableEq, Repr

/-- Why a request cannot be read. -/
inductive RequestError
  | incomplete
  | malformed (error : HeadError)
  deriving DecidableEq, Repr

def RequestError.message : RequestError → String
  | .incomplete => "request is incomplete, more data needed"
  | .malformed e => s!"HTTP parse error: {e.message}"

namespace Request

/-- The path and the query of a target. -/
def splitTarget (target : String) : String × Option String :=
  match Text.cut? '?' target with
  | some (path, query) => (path, some query)
  | none => (target, none)

/-- A request for a target, with neither header fields nor a body. -/
def new (method : Method) (target : String) : Request :=
  ⟨method, (splitTarget target).1, (splitTarget target).2, .http11, .empty, []⟩

/-! ## Query -/

/-- A piece of a query: a name and a value around the first equals sign; a plus sign stands for a space. -/
def queryPair (piece : String) : String × String :=
  let (key, value) := (Text.cut? '=' piece).getD (piece, "")
  (Text.replace '+' ' ' key, Text.replace '+' ' ' value)

/-- The names and values of a query, in order. -/
def queryPairs (query : String) : List (String × String) :=
  ((Text.split '&' query).filter (· != "")).map queryPair

/-- The names and values of the request's query, in order. -/
def parameters (r : Request) : List (String × String) := (r.query.map queryPairs).getD []

/-- The value of a query parameter; of several with one name the last counts. -/
def queryParam? (key : String) (r : Request) : Option String :=
  (r.parameters.reverse.find? (·.1 == key)).map (·.2)

/-! ## Connection -/

/-- Whether the connection may serve another request. -/
def isKeepAlive (r : Request) : Bool :=
  if r.headers.hasToken "connection" "close" then false
  else if r.headers.hasToken "connection" "keep-alive" then true
  else r.version.keepsAlive

def framing (r : Request) : Except BodyError Framing := Framing.forRequest r.headers

/-! ## Reading -/

/-- The request with this head; its body is not read yet. -/
def ofHead (h : RequestHead) : Request :=
  { new (.ofText h.method) h.target with version := h.version, headers := Head.headers h.fields }

/-- The request whose head is at the front of a buffer, and the bytes after the head. -/
def parse (buffer : Bytes) : Except RequestError (Request × Bytes) :=
  match Head.request buffer with
  | .done h rest => .ok (ofHead h, rest)
  | .more => .error .incomplete
  | .bad e => .error (.malformed e)

end Request

end Hypertext
