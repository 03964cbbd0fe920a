/-
Sessions of a client. A request is sent on a connection of the pool; after a complete response that allows it the
connection goes back, and otherwise it is closed. Nothing is sent twice.
-/
import Hypertext.Client.Incoming
import Hypertext.Client.Outgoing
import Hypertext.Client.Pool
import Hypertext.Json.Print

namespace Hypertext

/-- What comes back on a connection: pieces of bytes, and what follows them; none if nothing does. -/
structure Reply where
  pieces : List Bytes
  ending : Option ResponseReader.Ending

/-- What the outside does: how attempts to connect end, which idle connections are stale, and what comes back for the
bytes that are sent. -/
structure Network where
  connect : Target → ConnectOutcome
  isStale : PooledStream → Bool
  reply : PooledStream → Bytes → Reply

/-- A network that cannot be reached. -/
def Network.unreachable : Network where
  connect _ := .failed "Network is unreachable (os error 101)"
  isStale _ := true
  reply _ _ := ⟨[], some .closed⟩

structure Session where
  config : ClientConfig
  pool : Pool

namespace Session

def new (config : ClientConfig) : Session := ⟨config, .new config.maxConnectionsPerTarget⟩

def checkoutLimits (s : Session) : CheckoutLimits :=
  ⟨.ofMillis s.config.poolTimeout, .ofMillis s.config.connectTimeout⟩

/-- The response to a request that has been sent on a connection. -/
def receive (net : Network) (o : Outgoing) (stream : PooledStream) (s : Session) : Except ClientError Received :=
  let reply := net.reply stream (o.encode s.config.userAgent)
  let ending := reply.ending.getD (.overdue (.ofMillis s.config.readTimeout))
  ClientResponse.read (o.method == .head) s.config.maxResponseBytes reply.pieces ending

/-- Whether a connection can be used again after a response. -/
def mayKeep (received : Received) : Bool := !received.spent && received.response.allowsReuse

/-- Sends a request on a connection and gives the connection back. -/
def exchange (net : Network) (o : Outgoing) (stream : PooledStream) (s : Session) :
    Except ClientError ClientResponse × Session :=
  match s.receive net o stream with
  | .error e => (.error e, { s with pool := s.pool.drop stream })
  | .ok received =>
    (.ok received.response,
      { s with pool := if mayKeep received then s.pool.release stream else s.pool.drop stream })

def request (net : Network) (method : Method) (url : String) (headers : Headers) (body : Bytes) (s : Session) :
    Except ClientError ClientResponse × Session :=
  match Target.parse url with
  | .error e => (.error e, s)
  | .ok (url, target) =>
    match s.pool.checkout s.checkoutLimits net.isStale (net.connect target) target with
    | (.error e, pool) => (.error e, { s with pool })
    | (.ok stream, pool) => exchange net ⟨method, url, target, headers, body⟩ stream { s with pool }

def send (net : Network) (method : Method) (url : String) (body : Bytes) (s : Session) :
    Except ClientError ClientResponse × Session :=
  s.request net method url .empty body

def sendJson (net : Network) (method : Method) (url : String) (value : Json) (s : Session) :
    Except ClientError ClientResponse × Session :=
  s.request net method url (.add "Content-Type" "application/json" .empty) (Bytes.ofText value.text)

end Session

end Hypertext
