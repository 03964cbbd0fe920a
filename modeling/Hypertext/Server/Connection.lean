/-
A connection of a server. It takes one request after another off the bytes that its peer sends, has each one
dispatched, and writes the answers in order, until there is a reason to end. It works in small steps; between two of
them time may pass, the peer may act, and the state of the shutdown may change.
-/
import Hypertext.Config.Server
import Hypertext.Net.Pipe
import Hypertext.Net.ReadBuffer
import Hypertext.Server.Admission
import Hypertext.Server.Exchange
import Hypertext.Shutdown.Coordinator

namespace Hypertext

/-- How a server treats its connections. Times are in milliseconds. What is compressed is compressed by `encode`, and
nothing is shown of a connection that rests on which encoder that is. -/
structure ConnectionRules where
  dispatcher : Dispatcher
  idleTimeout : Nat
  maxRequestBytes : Nat
  compress : Bool
  encode : Bytes → Bytes := Gzip.gzip

def ConnectionRules.ofConfig (table : Table) (config : ServerConfig) : ConnectionRules where
  dispatcher := ⟨table, .ofMillis config.handlerTimeout⟩
  idleTimeout := config.idleTimeout
  maxRequestBytes := config.maxRequestBytes
  compress := config.compressResponses

/-- What a connection is doing: looking at what it has read, waiting for more until a deadline, giving a request to
the dispatcher, waiting for a handler that ends at a time until a deadline, writing an answer, writing a refusal,
reading what the peer has sent already before it ends because of a shutdown, or nothing any more. -/
inductive Phase
  | examining (deadline : Nat)
  | reading (deadline : Nat)
  | dispatching (request : Request)
  | handling (exchange : Exchange) (deadline ends : Nat) (completion : Completion)
  | answering (rest : Bytes) (sequel : Sequel)
  | refusing (rest : Bytes) (reason : CloseReason)
  | lingering (deadline : Nat)
  | closed (reason : CloseReason)

/-- What has happened on a connection. -/
inductive ConnectionEvent
  | moved (before after : ConnectionState)
  | dispatched (request : Request)
  | answered (bytes : Bytes)
  | refused (bytes : Bytes)

/-- A connection, with what has happened on it so far. -/
structure Connection where
  id : ConnectionId
  state : ConnectionState
  phase : Phase
  served : Nat
  buffer : ReadBuffer
  inbound : Pipe
  outbound : Pipe
  history : List ConnectionEvent

namespace Connection

def initialCapacity : Nat := 4096

/-- How long a connection that ends because of a shutdown goes on reading. -/
def lingerTime : Nat := 50

/-- A new connection; each of its pipes holds so many bytes. -/
def accept (id : ConnectionId) (capacity now : Nat) (rules : ConnectionRules) : Connection where
  id
  state := .accepted
  phase := .examining (now + rules.idleTimeout)
  served := 0
  buffer := .empty initialCapacity
  inbound := .ofCapacity capacity
  outbound := .ofCapacity capacity
  history := []

def note (event : ConnectionEvent) (c : Connection) : Connection := { c with history := c.history ++ [event] }

def move (next : ConnectionState) (c : Connection) : Connection :=
  if c.state = next then c else { c.note (.moved c.state next) with state := next }

/-- Ends the connection: what is on its way to the peer can still be read. -/
def finish (reason : CloseReason) (c : Connection) : Connection :=
  { c.move .closed with phase := .closed reason, inbound := c.inbound.close, outbound := c.outbound.close }

/-- Begins to end because of a shutdown. -/
def drain (now : Nat) (c : Connection) : Connection :=
  { c.move .draining with phase := .lingering (now + lingerTime) }

/-- Begins to wait for a request. -/
def await (rules : ConnectionRules) (now : Nat) (c : Connection) : Connection :=
  { c with phase := .examining (now + rules.idleTimeout) }

/-- Begins to refuse what the peer has sent; the rest of it is not looked at. -/
def refuse (status : Status) (message : String) (reason : CloseReason) (c : Connection) : Connection :=
  let bytes := Exchange.refusal status message
  { c.note (.refused bytes) with phase := .refusing bytes reason, buffer := c.buffer.keep [] }

/-- Reads what the buffer has room for. -/
def read (c : Connection) : Connection :=
  let (bytes, inbound) := c.inbound.read c.buffer.room
  { c with buffer := c.buffer.append bytes, inbound }

/-! ## Steps -/

/-- Looks at what has been read. -/
def examine (rules : ConnectionRules) (now : Nat) (status : ShutdownState) (deadline : Nat) (c : Connection) :
    Connection :=
  if !status.isRunning then c.drain now
  else match Admission.ofBuffer rules.maxRequestBytes c.buffer.bytes with
    | .wait => { c with phase := .reading deadline }
    | .serve request rest => { c with phase := .dispatching request, buffer := c.buffer.keep rest }.move .active
    | .refuse status reason => c.refuse status status.reason reason

/-- Waits for bytes. Each read gives the peer as much time as it had at first. -/
def awaitBytes (rules : ConnectionRules) (now : Nat) (status : ShutdownState) (deadline : Nat) (c : Connection) :
    Option Connection :=
  if !status.isRunning then some (c.drain now)
  else if !c.inbound.bytes.isEmpty then some (c.read.await rules now)
  else if c.inbound.closed then some (c.finish .peerClosed)
  else if deadline ≤ now then some (c.finish .idleTimeout)
  else none

/-- Begins to write the answer to a request. -/
def answer (status : ShutdownState) (outcome : Except DispatchError Response) (exchange : Exchange) (c : Connection) :
    Connection :=
  let a := exchange.answer status.isRunning outcome
  let c := if status.isRunning then c else c.move .draining
  { c.note (.answered a.bytes) with phase := .answering a.bytes a.sequel }

/-- Gives a request to the dispatcher. -/
def dispatch (rules : ConnectionRules) (now : Nat) (status : ShutdownState) (request : Request) (c : Connection) :
    Connection :=
  if status.isTerminated then c.finish .forced
  else
    let c := c.note (.dispatched request)
    let exchange := Exchange.ofRequest rules.compress rules.encode request
    match rules.dispatcher.plan request with
    | .answer outcome => c.answer status outcome exchange
    | .run reaction =>
      let deadline := now + rules.dispatcher.limit.millis
      { c with phase := .handling exchange deadline (now + reaction.delay) reaction.completion }

/-- Waits for a handler. One that ends at its deadline is too late. -/
def awaitHandler (rules : ConnectionRules) (now : Nat) (status : ShutdownState) (exchange : Exchange)
    (deadline ends : Nat) (completion : Completion) (c : Connection) : Option Connection :=
  if status.isTerminated then some (c.finish .forced)
  else if deadline ≤ now && deadline ≤ ends then
    some (c.answer status (.error (.handlerTimeout rules.dispatcher.limit)) exchange)
  else if ends ≤ now then some (c.answer status (Dispatcher.conclude completion) exchange)
  else none

/-- What follows an answer that has been written. -/
def follow (rules : ConnectionRules) (now : Nat) (sequel : Sequel) (c : Connection) : Connection :=
  match sequel with
  | .goOn => (c.move .idle).await rules now
  | .drain => c.drain now
  | .close reason => c.finish reason

def writeAnswer (rules : ConnectionRules) (now : Nat) (status : ShutdownState) (rest : Bytes) (sequel : Sequel)
    (c : Connection) : Option Connection :=
  if status.isTerminated then some (c.finish .forced)
  else if rest.isEmpty then some (follow rules now sequel { c with served := c.served + 1 })
  else if c.outbound.closed then some (c.finish .io)
  else if c.outbound.room = 0 then none
  else
    let (rest, outbound) := c.outbound.write rest
    some { c with phase := .answering rest sequel, outbound }

/-- Writes a refusal; whether the peer takes it does not matter. -/
def writeRefusal (rest : Bytes) (reason : CloseReason) (c : Connection) : Option Connection :=
  if rest.isEmpty || c.outbound.closed then some (c.finish reason)
  else if c.outbound.room = 0 then none
  else
    let (rest, outbound) := c.outbound.write rest
    some { c with phase := .refusing rest reason, outbound }

/-- The message to a peer whose request comes after the shutdown has begun. -/
def closingMessage : String := "connection closing"

/-- Ends because of a shutdown; what the peer has sent is refused. -/
def leave (c : Connection) : Connection :=
  if c.buffer.bytes.isEmpty then c.finish .drained else c.refuse .serviceUnavailable closingMessage .drained

/-- Reads what the peer has sent already. -/
def linger (rules : ConnectionRules) (now deadline : Nat) (c : Connection) : Option Connection :=
  if rules.maxRequestBytes < c.buffer.bytes.length then some c.leave
  else if !c.inbound.bytes.isEmpty then some c.read
  else if c.inbound.closed || deadline ≤ now then some c.leave
  else none

/-- A read that fails; none if the connection does not read. Pipes do not fail, other streams may. A connection that
waits for a request ends, and one that is about to end reads no more. -/
def failRead (status : ShutdownState) (c : Connection) : Option Connection :=
  match c.phase with
  | .reading _ => if status.isRunning then some (c.finish .io) else none
  | .lingering _ => some c.leave
  | _ => none

/-- A write that fails; none if the connection does not write. Pipes fail when they are closed, other streams may at any
time, also when all bytes have been given to them. -/
def failWrite (status : ShutdownState) (c : Connection) : Option Connection :=
  match c.phase with
  | .answering _ _ => if status.isTerminated then none else some (c.finish .io)
  | .refusing _ reason => some (c.finish reason)
  | _ => none

/-- One step; none if the connection has to wait. -/
def step (rules : ConnectionRules) (now : Nat) (status : ShutdownState) (c : Connection) : Option Connection :=
  match c.phase with
  | .examining deadline => some (c.examine rules now status deadline)
  | .reading deadline => c.awaitBytes rules now status deadline
  | .dispatching request => some (c.dispatch rules now status request)
  | .handling exchange deadline ends completion => c.awaitHandler rules now status exchange deadline ends completion
  | .answering rest sequel => c.writeAnswer rules now status rest sequel
  | .refusing rest reason => c.writeRefusal rest reason
  | .lingering deadline => c.linger rules now deadline
  | .closed _ => none

def runSteps (rules : ConnectionRules) (now : Nat) (status : ShutdownState) : (steps : Nat) → Connection → Connection
  | 0, c => c
  | n + 1, c =>
    match c.step rules now status with
    | none => c
    | some next => runSteps rules now status n next

/-- Goes on until the connection has to wait. Each byte is read in a step and looked at in another, and each request
has at least one byte and is done in six steps. -/
def run (rules : ConnectionRules) (now : Nat) (status : ShutdownState) (c : Connection) : Connection :=
  let bytes := c.inbound.bytes.length + c.inbound.waiting.length + c.buffer.bytes.length
  c.runSteps rules now status (8 * (bytes + 2))

/-! ## What shows from outside -/

/-- Until when the connection waits. -/
def deadline? (c : Connection) : Option Nat :=
  match c.phase with
  | .reading deadline | .lingering deadline | .handling _ deadline _ _ => some deadline
  | _ => none

/-- When the handler that the connection waits for ends. -/
def handlerEnds? (c : Connection) : Option Nat :=
  match c.phase with
  | .handling _ _ ends _ => some ends
  | _ => none

def isClosed (c : Connection) : Bool :=
  match c.phase with
  | .closed _ => true
  | _ => false

/-- Whether a change of the shutdown concerns the connection; one that refuses or lingers goes on as it is. -/
def heedsShutdown (c : Connection) : Bool :=
  match c.phase with
  | .refusing .. | .lingering _ | .closed _ => false
  | _ => true

/-- What the connection has come to, if it has ended. -/
def summary? (c : Connection) : Option ConnectionSummary :=
  match c.phase with
  | .closed reason => some ⟨c.served, reason⟩
  | _ => none

/-- The changes of state. -/
def moves (c : Connection) : List (ConnectionState × ConnectionState) :=
  c.history.filterMap fun event =>
    match event with
    | .moved before after => some (before, after)
    | _ => none

end Connection

end Hypertext
