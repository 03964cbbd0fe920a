/-
A client's pool of connections. Each target has a lane with a limited number of places. A checkout takes a place of its
lane, waiting for one if none is free; then it takes the idle connection that was released last, or opens a new one.
A connection that is released becomes idle and then gives up its place, one that is dropped is closed, and either way
the place goes to whoever has waited longest.
-/
import Hypertext.Client.Target

namespace Hypertext

/-- A connection: its number in the order of opening, and the target it was opened for. -/
structure PooledStream where
  number : Nat
  target : Target
  deriving DecidableEq, Repr

/-- The connections and the checkouts of one target: the free places, the checkouts that wait for a place, those that
have one and look for an idle connection, those that have one and open a connection, the idle connections with the
last one first, the connections that are checked out, and how many have put their connection back but not yet given up
their place. -/
structure Lane where
  target : Target
  free : Nat
  waiting : List Nat
  choosing : List Nat
  connecting : List Nat
  idle : List PooledStream
  held : List PooledStream
  leaving : Nat
  deriving DecidableEq, Repr

namespace Lane

/-- A lane that nobody has used. -/
def new (target : Target) (places : Nat) : Lane := ⟨target, places, [], [], [], [], [], 0⟩

/-- Whether nothing is lost when the lane is forgotten. -/
def isUnused (l : Lane) : Bool :=
  l.waiting.isEmpty && l.choosing.isEmpty && l.connecting.isEmpty && l.idle.isEmpty && l.held.isEmpty && l.leaving == 0

/-- A checkout comes and takes a place if one is free. -/
def enter (checkout : Nat) (l : Lane) : Lane :=
  if 0 < l.free then { l with free := l.free - 1, choosing := l.choosing ++ [checkout] }
  else { l with waiting := l.waiting ++ [checkout] }

/-- A place becomes free and goes to the checkout that has waited longest. -/
def vacate (l : Lane) : Lane :=
  match l.waiting with
  | [] => { l with free := l.free + 1 }
  | next :: others => { l with waiting := others, choosing := l.choosing ++ [next] }

end Lane

/-- The lanes of the targets, the number of the next checkout, how many connections have been opened, and those that
have been closed. -/
structure Pool where
  places : Nat
  lanes : List Lane
  nextCheckout : Nat
  opened : Nat
  closed : List PooledStream

namespace Pool

/-- An empty pool; each target has at least one place. -/
def new (maxPerTarget : Nat) : Pool := ⟨max 1 maxPerTarget, [], 0, 0, []⟩

def lane? (target : Target) (p : Pool) : Option Lane := p.lanes.find? fun l => l.target == target

def update (target : Target) (f : Lane → Lane) (p : Pool) : Pool :=
  { p with lanes := p.lanes.map fun l => if l.target == target then f l else l }

def targets (p : Pool) : Nat := p.lanes.length

def idle (p : Pool) : Nat := p.lanes.foldl (fun n l => n + l.idle.length) 0

/-! ## Checkouts -/

/-- Forgets the lanes that are not used, but for that of a target, and tracks the target. -/
def track (target : Target) (p : Pool) : Pool :=
  let kept := p.lanes.filter fun l => l.target == target || !l.isUnused
  { p with lanes := if kept.any fun l => l.target == target then kept else kept ++ [.new target p.places] }

/-- Begins a checkout and gives its number. -/
def enter (target : Target) (p : Pool) : Nat × Pool :=
  let p := p.track target
  (p.nextCheckout, { p.update target (Lane.enter p.nextCheckout) with nextCheckout := p.nextCheckout + 1 })

/-- Whether a checkout has a place and can go on. -/
def mayChoose (target : Target) (checkout : Nat) (p : Pool) : Bool :=
  (p.lane? target).any fun l => l.choosing.contains checkout

def giveUp (target : Target) (checkout : Nat) (p : Pool) : Pool :=
  p.update target fun l => { l with waiting := l.waiting.erase checkout }

/-- The idle connection that a checkout looks at next. -/
def candidate? (target : Target) (p : Pool) : Option PooledStream := (p.lane? target).bind fun l => l.idle.head?

/-- A checkout takes the candidate. -/
def reuse (checkout : Nat) (s : PooledStream) (p : Pool) : Pool :=
  p.update s.target fun l =>
    { l with choosing := l.choosing.erase checkout, idle := l.idle.erase s, held := s :: l.held }

/-- A checkout finds the candidate stale and closes it. -/
def discard (s : PooledStream) (p : Pool) : Pool :=
  { p.update s.target (fun l => { l with idle := l.idle.erase s }) with closed := s :: p.closed }

/-- A checkout finds no candidate and begins to open a connection. -/
def beginConnect (target : Target) (checkout : Nat) (p : Pool) : Pool :=
  p.update target fun l =>
    { l with choosing := l.choosing.erase checkout, connecting := l.connecting ++ [checkout] }

def connected (target : Target) (checkout : Nat) (p : Pool) : PooledStream × Pool :=
  let s : PooledStream := ⟨p.opened, target⟩
  let p := p.update target fun l => { l with connecting := l.connecting.erase checkout, held := s :: l.held }
  (s, { p with opened := p.opened + 1 })

def connectFailed (target : Target) (checkout : Nat) (p : Pool) : Pool :=
  p.update target fun l => { l with connecting := l.connecting.erase checkout }.vacate

/-! ## Connections that come back -/

/-- A connection that is checked out becomes idle; the place it had is not free yet. -/
def putBack (s : PooledStream) (p : Pool) : Pool :=
  p.update s.target fun l => { l with held := l.held.erase s, idle := s :: l.idle, leaving := l.leaving + 1 }

/-- The place of a connection that was put back becomes free. -/
def leave (target : Target) (p : Pool) : Pool :=
  p.update target fun l => { l with leaving := l.leaving - 1 }.vacate

/-- A connection that is checked out is given back. It is put back before its place becomes free, so that a checkout
that waits for the place finds it. -/
def release (s : PooledStream) (p : Pool) : Pool := (p.putBack s).leave s.target

/-- A connection that is checked out is closed. -/
def drop (s : PooledStream) (p : Pool) : Pool :=
  { p.update s.target (fun l => { l with held := l.held.erase s }.vacate) with closed := s :: p.closed }

end Pool

/-! ## A checkout while nobody else acts -/

inductive ConnectOutcome
  | connected
  | failed (reason : String)
  | timedOut

/-- The time limits of a checkout: how long it waits for a place, and how long for a connection. -/
structure CheckoutLimits where
  place : Duration
  connect : Duration

namespace Pool

/-- Opens a connection for a checkout that has a place. -/
def connect (limit : Duration) (outcome : ConnectOutcome) (target : Target) (checkout : Nat) (p : Pool) :
    Except ClientError PooledStream × Pool :=
  let p := p.beginConnect target checkout
  match outcome with
  | .connected =>
    let (s, p) := p.connected target checkout
    (.ok s, p)
  | .failed reason => (.error (.connect target.text reason), p.connectFailed target checkout)
  | .timedOut => (.error (.connectTimeout target.text limit), p.connectFailed target checkout)

/-- Takes an idle connection that is not stale for a checkout that has a place, or opens one. -/
def choose (isStale : PooledStream → Bool) (limit : Duration) (outcome : ConnectOutcome) (target : Target)
    (checkout : Nat) : (steps : Nat) → Pool → Except ClientError PooledStream × Pool
  | 0, p => p.connect limit outcome target checkout
  | n + 1, p =>
    match p.candidate? target with
    | none => p.connect limit outcome target checkout
    | some s =>
      if isStale s then choose isStale limit outcome target checkout n (p.discard s)
      else (.ok s, p.reuse checkout s)

/-- Checks a connection out. While nobody else acts no place becomes free. -/
def checkout (limits : CheckoutLimits) (isStale : PooledStream → Bool) (outcome : ConnectOutcome) (target : Target)
    (p : Pool) : Except ClientError PooledStream × Pool :=
  let (checkout, p) := p.enter target
  if p.mayChoose target checkout then p.choose isStale limits.connect outcome target checkout p.idle
  else (.error (.poolExhausted target.text limits.place), p.giveUp target checkout)

end Pool

end Hypertext
