/-
Dispatch: from a request to a response. The route's handler runs under a time limit; what goes wrong on the way
becomes an error with a response of its own.
-/
import Hypertext.Route.Router
import Hypertext.Time.Duration

namespace Hypertext

/-- Why a request has no response of a handler. -/
inductive DispatchError
  | notFound (path : String)
  | methodNotAllowed (method : Method) (path : String) (allowed : List Method)
  | handlerTimeout (limit : Duration)
  | panicked (reason : String)
  deriving DecidableEq, Repr

namespace DispatchError

def ofLookup : LookupError → DispatchError
  | .notFound path => .notFound path
  | .methodNotAllowed method path allowed => .methodNotAllowed method path allowed

def message : DispatchError → String
  | .notFound path => s!"no route matches {path}"
  | .methodNotAllowed method path _ => s!"method {method.text} is not allowed for {path}"
  | .handlerTimeout limit => s!"handler did not finish within {limit.text}"
  | .panicked reason => s!"handler failed unrecoverably: {reason}"

def status : DispatchError → Status
  | .notFound _ => .notFound
  | .methodNotAllowed .. => .methodNotAllowed
  | .handlerTimeout _ => .serviceUnavailable
  | .panicked _ => .internalServerError

/-- Whether the connection is given up after the response. -/
def closesConnection : DispatchError → Bool
  | .handlerTimeout _ | .panicked _ => true
  | _ => false

end DispatchError

/-- The methods of an Allow field: where GET is allowed so is HEAD, and OPTIONS always is. -/
def allowField (allowed : List Method) : String :=
  let methods := allowed ++ (if allowed.contains .get then [.head] else []) ++ [.options]
  Text.join ", " ((methods.eraseDups.mergeSort Method.le).map Method.text)

def DispatchError.response (e : DispatchError) : Response :=
  let basic := Response.ofError e.status e.status.reason
  let allowing := match e with
    | .methodNotAllowed _ _ allowed => basic.withHeader "Allow" (allowField allowed)
    | _ => basic
  { allowing with keepAlive := !e.closesConnection }

/-- Routes with a time limit for their handlers. -/
structure Dispatcher where
  table : Table
  limit : Duration

namespace Dispatcher

/-- What is to be done with a request: run a handler, or nothing more than answer. -/
inductive Plan
  | run (reaction : Reaction)
  | answer (outcome : Except DispatchError Response)

def run (request : Request) (found : Found) : Plan := .run (found.route.endpoint ⟨request, found.params⟩)

/-- Finds out what is to be done. HEAD is served by a GET route where it has none of its own, and OPTIONS is
answered with the methods that are allowed. -/
def plan (d : Dispatcher) (request : Request) : Plan :=
  match d.table.find request.method request.path with
  | .ok found => run request found
  | .error (.notFound path) => .answer (.error (.notFound path))
  | .error (.methodNotAllowed method path allowed) =>
    if request.method == .head && allowed.contains .get then
      match d.table.find .get request.path with
      | .ok found => run request found
      | .error e => .answer (.error (.ofLookup e))
    else if request.method == .options then
      .answer (.ok ((Response.new .noContent).withHeader "Allow" (allowField allowed)))
    else .answer (.error (.methodNotAllowed method path allowed))

/-- What a panic without a text is called. -/
def namelessPanic : String := "handler panicked"

/-- The outcome of a handler that has ended in time. -/
def conclude : Completion → Except DispatchError Response
  | .response r => .ok r
  | .failed (.unrecoverable reason) => .error (.panicked reason)
  | .failed e => .ok e.response
  | .panicked text => .error (.panicked (text.getD namelessPanic))

/-- Whether a handler ends within the limit; one that takes as long as the limit does not. -/
def inTime (d : Dispatcher) (reaction : Reaction) : Bool := reaction.delay < d.limit.millis

def dispatch (d : Dispatcher) (request : Request) : Except DispatchError Response :=
  match d.plan request with
  | .answer outcome => outcome
  | .run reaction => if d.inTime reaction then conclude reaction.completion else .error (.handlerTimeout d.limit)

end Dispatcher

end Hypertext
