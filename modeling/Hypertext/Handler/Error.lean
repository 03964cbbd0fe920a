/-
How a handler can fail, and the response that a failure becomes. What went wrong inside the server is not told
to the peer.
-/
import Hypertext.IoError
import Hypertext.Message.Response

namespace Hypertext

inductive HandlerError
  | status (status : Status) (message : String)
  | unrecoverable (reason : String)
  | json (error : Json.Error)
  | failure (error : IoError)

namespace HandlerError

def badRequest (message : String) : HandlerError := .status .badRequest message

def missing (message : String) : HandlerError := .status .notFound message

def message : HandlerError → String
  | .status _ message => message
  | .unrecoverable reason => s!"handler entered an unrecoverable state: {reason}"
  | .json e => s!"invalid JSON: {e.message}"
  | .failure e => s!"I/O error: {e.text}"

def responseStatus : HandlerError → Status
  | .status s _ => s
  | .unrecoverable _ => .internalServerError
  | .json _ => .badRequest
  | .failure e =>
    match e.kind with
    | .notFound => .notFound
    | .permissionDenied => .forbidden
    | _ => .internalServerError

end HandlerError

namespace Response

/-- A response that reports an error as a JSON object. -/
def ofError (status : Status) (message : String) : Response :=
  let body := Json.object [("status", .ofNat status.code), ("error", .string message)]
  ((new status).withHeader "Content-Type" "application/json").withBody (Bytes.ofText body.text)

end Response

/-- The response to a failed request: with a server error it says no more than the status does. -/
def HandlerError.response (e : HandlerError) : Response :=
  let status := e.responseStatus
  .ofError status (if status.isServerError then status.reason else e.message)

end Hypertext
