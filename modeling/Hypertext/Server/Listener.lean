/-
A server: it is bound to an address with the routes it serves, runs, and ends with a report.
-/
import Hypertext.Route.Router
import Hypertext.Server.Service

namespace Hypertext

inductive ServerError
  | bind (address : Net.SocketAddress) (reason : String)
  | io (text : String)
  deriving DecidableEq, Repr

def ServerError.message : ServerError → String
  | .bind address reason => s!"failed to bind to {address.text}: {reason}"
  | .io text => s!"I/O error: {text}"

/-- A server that listens at an address. -/
structure Server where
  address : Net.SocketAddress
  config : ServerConfig
  table : Table

namespace Server

/-- Binds a server to the address of its configuration, where listening gives the address that is bound or the reason
why none is; no more routes can be added after that. -/
def bind (listen : Net.SocketAddress → Except String Net.SocketAddress) (config : ServerConfig) (router : Router) :
    Except ServerError Server := do
  let address ← (listen config.address).mapError (.bind config.address)
  return ⟨address, config, router.toTable.2⟩

def start (s : Server) : RunningService := .start (.ofConfig s.table s.config)

end Server

namespace RunningService

def shutDownAndWait (grace : Nat) (r : RunningService) : Option ShutdownReport × RunningService :=
  let left := (r.service.coordinator.state.left? r.timeline.now).getD grace
  let r := (r.shutDown grace).pass left
  (r.service.calls.getLast?.bind (·.report?), r)

end RunningService

end Hypertext
