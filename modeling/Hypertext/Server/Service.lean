/-
A service: the connections of a server, the shutdown they share, and the calls that begin it, in time.
-/
import Hypertext.Server.Connection
import Hypertext.Time.Timeline

namespace Hypertext

/-- Who can take a turn: a connection, the handler that a connection waits for, or a call to shut down. -/
inductive ServiceTask
  | connection (i : Nat)
  | handler (i : Nat)
  | call (k : Nat)
  deriving DecidableEq, Repr

/-- Connections by the order of accepting, and calls by the order of beginning. -/
structure Service where
  rules : ConnectionRules
  coordinator : Coordinator
  connections : List Connection
  calls : List ShutdownCall

namespace Service

def new (rules : ConnectionRules) : Service := ⟨rules, .start, [], []⟩

/-- All calls as tasks. -/
def callTasks (s : Service) : List ServiceTask := (List.range s.calls.length).map .call

/-- The connections that a change of the shutdown concerns, as tasks. -/
def heedingTasks (s : Service) : List ServiceTask :=
  s.connections.zipIdx.filterMap fun (c, i) => if c.heedsShutdown then some (.connection i) else none

/-- A connection that has ended is released; when it was the last one the calls look again. -/
def release (before after : Connection) (t : Timeline ServiceTask) (s : Service) : Timeline ServiceTask × Service :=
  if after.isClosed && !before.isClosed then
    let s := { s with coordinator := s.coordinator.release }
    (if s.coordinator.live = 0 then t.wakeAll s.callTasks else t, s)
  else (t, s)

def goOn (i : Nat) (c : Connection) (t : Timeline ServiceTask) (s : Service) : Timeline ServiceTask × Service :=
  let next := c.run s.rules t.now s.coordinator.state
  let t := (t.schedule next.deadline? (.connection i)).schedule next.handlerEnds? (.handler i)
  release c next t { s with connections := s.connections.set i next }

/-- A call goes on; when the state of the shutdown changes, all that it concerns look again. -/
def callOn (k : Nat) (call : ShutdownCall) (t : Timeline ServiceTask) (s : Service) : Timeline ServiceTask × Service :=
  let (next, coordinator) := call.run t.now s.coordinator
  let t := if coordinator.state = s.coordinator.state then t else t.wakeAll (s.heedingTasks ++ s.callTasks)
  (t.schedule next.deadline? (.call k), { s with coordinator, calls := s.calls.set k next })

/-- A turn. A handler that has ended has its connection go on. -/
def turn (task : ServiceTask) (t : Timeline ServiceTask) (s : Service) : Timeline ServiceTask × Service :=
  match task with
  | .handler i => (t.wake (.connection i), s)
  | .connection i =>
    match s.connections[i]? with
    | none => (t, s)
    | some c => s.goOn i c t
  | .call k =>
    match s.calls[k]? with
    | none => (t, s)
    | some call => s.callOn k call t

/-- As many turns as can be taken before all of them wait: a connection has some for each of its bytes. -/
def maxTurns (s : Service) : Nat :=
  let bytes := s.connections.foldl (fun n c =>
    n + c.inbound.bytes.length + c.inbound.waiting.length + c.buffer.bytes.length) 0
  let parties := s.connections.length + s.calls.length + 1
  64 * (bytes + 8 * (parties * parties))

end Service

/-- A service in time. -/
structure RunningService where
  timeline : Timeline ServiceTask
  service : Service

namespace RunningService

def start (rules : ConnectionRules) : RunningService := ⟨.start, .new rules⟩

def act (i : Nat) (change : Connection → Connection) (r : RunningService) : RunningService where
  timeline := r.timeline.wake (.connection i)
  service := { r.service with connections := r.service.connections.modify i change }

/-- A peer connects; its connection is accepted unless the shutdown has begun. -/
def accept (capacity : Nat) (r : RunningService) : Option ConnectionId × RunningService :=
  match r.service.coordinator.register with
  | (none, coordinator) => (none, { r with service := { r.service with coordinator } })
  | (some id, coordinator) =>
    let c := Connection.accept id capacity r.timeline.now r.service.rules
    let task := ServiceTask.connection r.service.connections.length
    (some id, {
      timeline := r.timeline.wake task
      service := { r.service with coordinator, connections := r.service.connections ++ [c] } })

def send (i : Nat) (bytes : Bytes) (r : RunningService) : RunningService :=
  r.act i fun c => { c with inbound := c.inbound.send bytes }

/-- The peer ends its sending half. -/
def finishSending (i : Nat) (r : RunningService) : RunningService :=
  r.act i fun c => { c with inbound := c.inbound.close }

/-- The peer drops the connection. -/
def hangUp (i : Nat) (r : RunningService) : RunningService :=
  r.act i fun c => { c with inbound := c.inbound.close, outbound := c.outbound.close }

/-- The peer reads all that has been sent to it. -/
def receive (i : Nat) (r : RunningService) : Bytes × RunningService :=
  match r.service.connections[i]? with
  | none => ([], r)
  | some c =>
    if c.outbound.bytes.isEmpty then ([], r)
    else (c.outbound.bytes, r.act i fun c => { c with outbound := (c.outbound.read c.outbound.bytes.length).2 })

def shutDown (grace : Nat) (r : RunningService) : RunningService where
  timeline := r.timeline.wake (.call r.service.calls.length)
  service := { r.service with calls := r.service.calls ++ [.fresh grace] }

def pass (ms : Nat) (r : RunningService) : RunningService :=
  let (timeline, service) :=
    r.timeline.runUntil Service.turn (r.timeline.now + ms) r.service.maxTurns r.service
  { timeline, service }

end RunningService

end Hypertext
