/-
The life of a connection on the side of the server: the states it goes through, and why it ends.
-/

namespace Hypertext

/-- The state of a connection: no request has come yet, a request is worked on, a further request is awaited, the
connection ends because of a shutdown, or it has ended. -/
inductive ConnectionState
  | accepted
  | active
  | idle
  | draining
  | closed
  deriving DecidableEq, Repr

inductive CloseReason
  | peerClosed
  | notKeepAlive
  | idleTimeout
  | drained
  | handlerTimeout
  | handlerPanicked
  | badRequest
  | payloadTooLarge
  | forced
  | io
  deriving DecidableEq, Repr

def CloseReason.text : CloseReason → String
  | .peerClosed => "peer closed"
  | .notKeepAlive => "not keep-alive"
  | .idleTimeout => "idle timeout"
  | .drained => "drained"
  | .handlerTimeout => "handler timeout"
  | .handlerPanicked => "handler panicked"
  | .badRequest => "bad request"
  | .payloadTooLarge => "payload too large"
  | .forced => "forced"
  | .io => "i/o error"

/-- What a connection has come to: how many requests were answered, and why it ended. -/
structure ConnectionSummary where
  served : Nat
  reason : CloseReason
  deriving DecidableEq, Repr

end Hypertext
