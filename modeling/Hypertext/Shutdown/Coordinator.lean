/-
The shutdown of a server. The coordinator counts live connections. Once draining begins no new ones are accepted;
draining ends when the last connection is gone or its deadline has come, and those still live then are forced.
-/

namespace Hypertext

/-- How far the shutdown has come. -/
inductive ShutdownState
  | running
  | draining (deadline : Nat)
  | terminated
  deriving DecidableEq, Repr

namespace ShutdownState

def isRunning : ShutdownState → Bool
  | .running => true
  | _ => false

def isTerminated : ShutdownState → Bool
  | .terminated => true
  | _ => false

theorem isTerminated_iff {s : ShutdownState} : s.isTerminated = true ↔ s = .terminated := by
  cases s <;> simp [isTerminated]

theorem isRunning_of_isTerminated {s : ShutdownState} (h : s.isTerminated = true) : s.isRunning = false := by
  cases s with
  | running => cases h
  | draining deadline => rfl
  | terminated => rfl

/-- How much time draining connections have left. -/
def left? (now : Nat) : ShutdownState → Option Nat
  | .draining deadline => some (deadline - now)
  | _ => none

end ShutdownState

structure ConnectionId where
  number : Nat
  deriving DecidableEq, Repr

def ConnectionId.text (id : ConnectionId) : String := s!"conn-{id.number}"

/-- What a shutdown has come to: how many connections were forced closed. -/
structure ShutdownReport where
  forced : Nat
  deriving DecidableEq, Repr

namespace ShutdownReport

def isClean (r : ShutdownReport) : Bool := r.forced == 0

def exitCode (r : ShutdownReport) : Nat := if r.isClean then 0 else 1

end ShutdownReport

/-- The state of the shutdown, the number of live connections, the number of the next one, and how many have been
forced. -/
structure Coordinator where
  state : ShutdownState
  live : Nat
  nextNumber : Nat
  forced : Nat
  deriving DecidableEq, Repr

namespace Coordinator

def start : Coordinator := ⟨.running, 0, 1, 0⟩

/-- One more connection is counted. -/
def count (c : Coordinator) : Coordinator := { c with live := c.live + 1 }

/-- A connection is gone. -/
def release (c : Coordinator) : Coordinator := { c with live := c.live - 1 }

/-- The next number is given away. -/
def issue (c : Coordinator) : Coordinator := { c with nextNumber := c.nextNumber + 1 }

def drain (deadline : Nat) (c : Coordinator) : Coordinator := { c with state := .draining deadline }

/-- So many connections are going to be forced. -/
def record (forced : Nat) (c : Coordinator) : Coordinator := { c with forced }

/-- Ends the shutdown. -/
def terminate (c : Coordinator) : Coordinator := { c with state := .terminated }

def report (c : Coordinator) : ShutdownReport := ⟨c.forced⟩

/-- Has a call take so many steps, or fewer if it has to wait. -/
def serve {κ : Type} (step : Coordinator → κ → Option (κ × Coordinator)) :
    (steps : Nat) → κ → Coordinator → κ × Coordinator
  | 0, call, c => (call, c)
  | n + 1, call, c =>
    match step c call with
    | none => (call, c)
    | some (next, c) => serve step n next c

/-- A call has to wait when it has taken as many steps as it has. -/
theorem step_serve {κ : Type} {step : Coordinator → κ → Option (κ × Coordinator)} (left : κ → Nat)
    (hstep : ∀ c call next d, step c call = some (next, d) → left next < left call) :
    ∀ (n : Nat) (call : κ) (c : Coordinator), left call ≤ n → step (serve step n call c).2 (serve step n call c).1 = none
  | 0, call, c, h => by
    show step c call = none
    cases hs : step c call with
    | none => rfl
    | some next =>
      have hlt := hstep c call next.1 next.2 hs
      omega
  | n + 1, call, c, h => by
    cases hs : step c call with
    | none =>
      simp only [serve, hs]
    | some next =>
      have hlt := hstep c call next.1 next.2 hs
      simp only [serve, hs]
      exact step_serve left hstep n next.1 next.2 (by omega)

end Coordinator

/-! ## Calls

A call works in single steps; between two of them other calls may take theirs. -/

/-- A connection that is to be accepted. It is counted first and the state of the shutdown is looked at then, so that
a shutdown that begins meanwhile either waits for it or is seen. -/
inductive RegisterCall
  | fresh
  | counted
  | admitted
  | refused
  | done (id : Option ConnectionId)
  deriving DecidableEq, Repr

namespace RegisterCall

/-- One step of a call; none if it is done. -/
def step (c : Coordinator) : RegisterCall → Option (RegisterCall × Coordinator)
  | .fresh => some (.counted, c.count)
  | .counted => some (if c.state.isRunning then .admitted else .refused, c)
  | .admitted => some (.done (some ⟨c.nextNumber⟩), c.issue)
  | .refused => some (.done none, c.release)
  | .done _ => none

/-- The connection that has been accepted. -/
def id? : RegisterCall → Option ConnectionId
  | .done id => id
  | _ => none

end RegisterCall

/-- Accepts a connection, unless the shutdown has begun. -/
def Coordinator.register (c : Coordinator) : Option ConnectionId × Coordinator :=
  let (call, c) := serve RegisterCall.step 3 .fresh c
  (call.id?, c)

theorem Coordinator.register_eq (c : Coordinator) : c.register =
    if c.state.isRunning then (some ⟨c.nextNumber⟩, { c with live := c.live + 1, nextNumber := c.nextNumber + 1 })
    else (none, c) := by
  by_cases hr : c.state.isRunning
  · simp [register, serve, RegisterCall.step, RegisterCall.id?, count, issue, hr]
  · simp [register, serve, RegisterCall.step, RegisterCall.id?, count, release, hr]

/-- A request to shut down. The first one drains: when nobody is live any more, or its deadline has come, it looks how
many are, notes that down and ends the shutdown. All others wait until it is ended. All give the same report. -/
inductive ShutdownCall
  | fresh (grace : Nat)
  | draining (deadline : Nat)
  | counting
  | recording (forced : Nat)
  | ending
  | waiting
  | reporting
  | done (report : ShutdownReport)
  deriving DecidableEq, Repr

namespace ShutdownCall

/-- Whether draining is over: nobody is live, or the deadline has come. -/
def isOver (now deadline : Nat) (c : Coordinator) : Bool := c.live == 0 || deadline ≤ now

/-- One step of a call; none if it has to wait. -/
def step (now : Nat) (c : Coordinator) : ShutdownCall → Option (ShutdownCall × Coordinator)
  | .fresh grace =>
    if c.state.isRunning then some (.draining (now + grace), c.drain (now + grace)) else some (.waiting, c)
  | .draining deadline => if isOver now deadline c then some (.counting, c) else none
  | .counting => some (.recording c.live, c)
  | .recording forced => some (.ending, c.record forced)
  | .ending => some (.reporting, c.terminate)
  | .waiting => if c.state.isTerminated then some (.reporting, c) else none
  | .reporting => some (.done c.report, c)
  | .done _ => none

/-- How many steps a call has left at most. -/
def stepsLeft : ShutdownCall → Nat
  | .fresh _ => 6
  | .draining _ => 5
  | .counting => 4
  | .recording _ => 3
  | .ending | .waiting => 2
  | .reporting => 1
  | .done _ => 0

/-- Goes on until the call has to wait. -/
def run (now : Nat) (call : ShutdownCall) (c : Coordinator) : ShutdownCall × Coordinator :=
  Coordinator.serve (step now) call.stepsLeft call c

theorem stepsLeft_lt {now : Nat} {c d : Coordinator} {call next : ShutdownCall}
    (h : step now c call = some (next, d)) : next.stepsLeft < call.stepsLeft := by
  cases call with
  | fresh grace =>
    simp only [step] at h
    split at h
    · cases h
      exact Nat.lt_add_one 5
    · cases h
      show 2 < 6
      omega
  | draining deadline =>
    simp only [step] at h
    split at h
    · cases h
      exact Nat.lt_add_one 4
    · cases h
  | waiting =>
    simp only [step] at h
    split at h
    · cases h
      exact Nat.lt_add_one 1
    · cases h
  | done report => cases h
  | _ =>
    cases h
    exact Nat.lt_add_one _

/-- After that it does have to wait. -/
theorem step_run (now : Nat) (call : ShutdownCall) (c : Coordinator) :
    step now (call.run now c).2 (call.run now c).1 = none :=
  Coordinator.step_serve stepsLeft (fun _ _ _ _ => stepsLeft_lt) _ call c (Nat.le_refl _)

/-- When a waiting call is to be woken by time. -/
def deadline? : ShutdownCall → Option Nat
  | .draining deadline => some deadline
  | _ => none

def report? : ShutdownCall → Option ShutdownReport
  | .done r => some r
  | _ => none

/-- Whether the call waits for the last connection to go. -/
def isDraining : ShutdownCall → Bool
  | .draining _ => true
  | _ => false

end ShutdownCall

end Hypertext
