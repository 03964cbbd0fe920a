/-
Exchanges: how a request is answered and what the connection does after it. A connection is kept only if the request
and the response both allow it, no shutdown has begun, and the handler has not been given up.
-/
import Hypertext.Dispatch
import Hypertext.Message.Coding
import Hypertext.Server.CloseReason

namespace Hypertext

/-- What an answer has to know of its request, and what compresses its body. -/
structure Exchange where
  head : Bool
  wantsKeepAlive : Bool
  acceptsGzip : Bool
  encode : Bytes → Bytes

/-- What a connection does after an answer. -/
inductive Sequel
  | goOn
  | drain
  | close (reason : CloseReason)
  deriving DecidableEq, Repr

/-- The bytes of an answer, and what follows it. -/
structure Answer where
  bytes : Bytes
  sequel : Sequel

/-- The reason to close a connection whose handler was given up. -/
def DispatchError.closeReason? : DispatchError → Option CloseReason
  | .handlerTimeout _ => some .handlerTimeout
  | .panicked _ => some .handlerPanicked
  | _ => none

namespace Exchange

def ofRequest (compress : Bool) (encode : Bytes → Bytes) (r : Request) : Exchange where
  head := r.method == .head
  wantsKeepAlive := r.isKeepAlive
  acceptsGzip := compress && Coding.acceptsGzip r.headers
  encode

/-- The response of an outcome, and the reason to close the connection if there is one. -/
def settle : Except DispatchError Response → Response × Option CloseReason
  | .ok response => (response, none)
  | .error e => (e.response, e.closeReason?)

def sequel (running keepAlive : Bool) : Option CloseReason → Sequel
  | some reason => .close reason
  | none => if !running then .drain else if keepAlive then .goOn else .close .notKeepAlive

/-- The answer to a request whose dispatch has come to an outcome. -/
def answer (running : Bool) (outcome : Except DispatchError Response) (x : Exchange) : Answer :=
  let (response, fatal) := settle outcome
  let keepAlive := x.wantsKeepAlive && response.keepAlive && running && fatal.isNone
  { bytes := Response.encode x.head { response.compressed x.acceptsGzip x.encode with keepAlive }
    sequel := sequel running keepAlive fatal }

/-- The bytes of a response that refuses what a peer has sent. -/
def refusal (status : Status) (message : String) : Bytes :=
  Response.encode false { Response.ofError status message with keepAlive := false }

end Exchange

end Hypertext
