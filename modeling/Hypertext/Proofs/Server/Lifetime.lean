/-
Lifetimes: a connection from its acceptance on, whatever happens around it. Its peer sends what it likes in pieces of
any size, reads or does not, ends its side or hangs up; handlers come to any outcome; time passes; and a shutdown may
begin and come to its end between any two steps.

What a step can do is said once, in `Connection.Advance`; what holds of all lifetimes is shown by the cases of it.
-/
import Hypertext.Proofs.Server.Transmission

namespace Hypertext

/-- Whether a phase has to do with a request, from its dispatch until its answer has been written. -/
def Phase.works : Phase → Bool
  | .dispatching _ | .handling .. | .answering .. => true
  | _ => false

namespace Connection

/-! ## What a history tells -/

/-- The bytes of the answers to requests, in order. -/
def answered (c : Connection) : List Bytes :=
  c.history.filterMap fun event =>
    match event with
    | .answered bytes => some bytes
    | _ => none

/-- The bytes of the refusals. -/
def refused (c : Connection) : List Bytes :=
  c.history.filterMap fun event =>
    match event with
    | .refused bytes => some bytes
    | _ => none

variable (c : Connection) (next : ConnectionState) (reason : CloseReason) (now : Nat)

@[simp]
theorem answered_note_dispatched (request : Request) : (c.note (.dispatched request)).answered = c.answered := by
  simp [answered, note]

@[simp]
theorem answered_note_answered (bytes : Bytes) : (c.note (.answered bytes)).answered = c.answered ++ [bytes] := by
  simp [answered, note]

@[simp]
theorem answered_note_refused (bytes : Bytes) : (c.note (.refused bytes)).answered = c.answered := by
  simp [answered, note]

@[simp]
theorem refused_note_dispatched (request : Request) : (c.note (.dispatched request)).refused = c.refused := by
  simp [refused, note]

@[simp]
theorem refused_note_answered (bytes : Bytes) : (c.note (.answered bytes)).refused = c.refused := by
  simp [refused, note]

@[simp]
theorem refused_note_refused (bytes : Bytes) : (c.note (.refused bytes)).refused = c.refused ++ [bytes] := by
  simp [refused, note]

@[simp]
theorem answered_move : (c.move next).answered = c.answered := by
  unfold move
  split
  · rfl
  · simp [answered, note]

@[simp]
theorem refused_move : (c.move next).refused = c.refused := by
  unfold move
  split
  · rfl
  · simp [refused, note]

@[simp]
theorem state_move : (c.move next).state = next := by
  unfold move
  split
  · next h => exact h
  · rfl

@[simp]
theorem served_move : (c.move next).served = c.served := by
  unfold move
  split <;> rfl

/-- What beginning to answer a request adds to the history, and what it leaves alone. -/
theorem answer_adds (status : ShutdownState) (outcome : Except DispatchError Response) (x : Exchange) :
    (c.answer status outcome x).dispatched = c.dispatched ∧
    (c.answer status outcome x).answered = c.answered ++ [(x.answer status.isRunning outcome).bytes] ∧
    (c.answer status outcome x).refused = c.refused ∧ (c.answer status outcome x).served = c.served ∧
    (c.answer status outcome x).outbound = c.outbound := by
  have hnoted : ∀ d : Connection,
      ({ d.note (.answered (x.answer status.isRunning outcome).bytes) with
        phase := .answering (x.answer status.isRunning outcome).bytes (x.answer status.isRunning outcome).sequel } :
          Connection).dispatched = d.dispatched ∧
      (d.note (.answered (x.answer status.isRunning outcome).bytes)).answered =
        d.answered ++ [(x.answer status.isRunning outcome).bytes] ∧
      (d.note (.answered (x.answer status.isRunning outcome).bytes)).refused = d.refused :=
    fun d => ⟨dispatched_note_answered d _, answered_note_answered d _, refused_note_answered d _⟩
  unfold answer
  split
  · obtain ⟨h1, h2, h3⟩ := hnoted c
    exact ⟨h1, h2, h3, rfl, rfl⟩
  · obtain ⟨h1, h2, h3⟩ := hnoted (c.move .draining)
    exact ⟨h1.trans (dispatched_move c _), h2.trans (congrArg (· ++ _) (answered_move c _)),
      h3.trans (refused_move c _), served_move c _, outbound_move c _⟩

@[simp]
theorem buffer_answer (status : ShutdownState) (outcome : Except DispatchError Response) (x : Exchange) :
    (c.answer status outcome x).buffer = c.buffer := by
  unfold answer
  split
  · rfl
  · exact buffer_move c _

@[simp]
theorem inbound_answer (status : ShutdownState) (outcome : Except DispatchError Response) (x : Exchange) :
    (c.answer status outcome x).inbound = c.inbound := by
  unfold answer
  split
  · rfl
  · exact inbound_move c _

/-- A read loses no bytes. -/
theorem read_unread :
    c.read.buffer.bytes ++ c.read.inbound.contents = c.buffer.bytes ++ c.inbound.contents := by
  show c.buffer.bytes ++ (c.inbound.read _).1 ++ (c.inbound.read _).2.contents = _
  rw [List.append_assoc, Pipe.read_contents]

/-- A read makes the buffer longer if there is something to read. -/
theorem length_read (hbytes : c.inbound.bytes ≠ []) :
    c.buffer.bytes.length < c.read.buffer.bytes.length := by
  have hread : c.read.buffer.bytes.length = c.buffer.bytes.length + (c.inbound.bytes.take c.buffer.room).length :=
    List.length_append
  have hroom := c.buffer.room_pos
  have hpos := List.length_pos_iff.2 hbytes
  rw [List.length_take] at hread
  omega

/-! ## What a step can do -/

/-- A step, by what the connection was doing and what it finds. -/
inductive Advance (rules : ConnectionRules) (now : Nat) (status : ShutdownState) (c : Connection) : Connection → Prop
  | drain {deadline : Nat} (phase : c.phase = .examining deadline ∨ c.phase = .reading deadline)
      (stops : status.isRunning = false) : Advance rules now status c (c.drain now)
  | wait {deadline : Nat} (phase : c.phase = .examining deadline) (runs : status.isRunning = true)
      (found : Admission.ofBuffer rules.maxRequestBytes c.buffer.bytes = .wait) :
      Advance rules now status c { c with phase := .reading deadline }
  | take {deadline : Nat} {request : Request} {rest : Bytes} (phase : c.phase = .examining deadline)
      (runs : status.isRunning = true)
      (found : Admission.ofBuffer rules.maxRequestBytes c.buffer.bytes = .serve request rest) :
      Advance rules now status c ({ c with phase := .dispatching request, buffer := c.buffer.keep rest }.move .active)
  | refuse {deadline : Nat} {fault : Status} {reason : CloseReason} (phase : c.phase = .examining deadline)
      (runs : status.isRunning = true)
      (found : Admission.ofBuffer rules.maxRequestBytes c.buffer.bytes = .refuse fault reason) :
      Advance rules now status c (c.refuse fault fault.reason reason)
  | read {deadline : Nat} (phase : c.phase = .reading deadline) (runs : status.isRunning = true)
      (found : c.inbound.bytes ≠ []) : Advance rules now status c (c.read.await rules now)
  | giveUp {deadline : Nat} {reason : CloseReason} (phase : c.phase = .reading deadline)
      (runs : status.isRunning = true) (found : c.inbound.bytes = [])
      (why : reason = .peerClosed ∨ reason = .idleTimeout) : Advance rules now status c (c.finish reason)
  | force (phase : c.phase.works = true) (stops : status.isTerminated = true) :
      Advance rules now status c (c.finish .forced)
  | answer {request : Request} {outcome : Except DispatchError Response} (phase : c.phase = .dispatching request)
      (runs : status.isTerminated = false) (plan : rules.dispatcher.plan request = .answer outcome) :
      Advance rules now status c
        ((c.note (.dispatched request)).answer status outcome (.ofRequest rules.compress rules.encode request))
  | begin {request : Request} {reaction : Reaction} (phase : c.phase = .dispatching request)
      (runs : status.isTerminated = false) (plan : rules.dispatcher.plan request = .run reaction) :
      Advance rules now status c { c.note (.dispatched request) with
        phase := .handling (.ofRequest rules.compress rules.encode request) (now + rules.dispatcher.limit.millis)
          (now + reaction.delay) reaction.completion }
  | conclude {exchange : Exchange} {deadline ends : Nat} {completion : Completion}
      (phase : c.phase = .handling exchange deadline ends completion) (runs : status.isTerminated = false) :
      Advance rules now status c
        (c.answer status (rules.dispatcher.outcomeBy deadline ends completion) exchange)
  | follow {sequel : Sequel} (phase : c.phase = .answering [] sequel) (runs : status.isTerminated = false) :
      Advance rules now status c (Connection.follow rules now sequel { c with served := c.served + 1 })
  | breakOff {rest : Bytes} {sequel : Sequel} (phase : c.phase = .answering rest sequel) (more : rest ≠ [])
      (closed : c.outbound.closed = true) (runs : status.isTerminated = false) : Advance rules now status c (c.finish .io)
  | write {rest : Bytes} {sequel : Sequel} (phase : c.phase = .answering rest sequel) (more : rest ≠ [])
      (runs : status.isTerminated = false) (room : 0 < c.outbound.room) :
      Advance rules now status c
        { c with phase := .answering (c.outbound.write rest).1 sequel, outbound := (c.outbound.write rest).2 }
  | dismiss {rest : Bytes} {reason : CloseReason} (phase : c.phase = .refusing rest reason)
      (done : rest = [] ∨ c.outbound.closed = true) : Advance rules now status c (c.finish reason)
  | writeRefusal {rest : Bytes} {reason : CloseReason} (phase : c.phase = .refusing rest reason) (more : rest ≠ [])
      (opened : c.outbound.closed = false) (room : 0 < c.outbound.room) :
      Advance rules now status c
        { c with phase := .refusing (c.outbound.write rest).1 reason, outbound := (c.outbound.write rest).2 }
  | linger {deadline : Nat} (phase : c.phase = .lingering deadline) (found : c.inbound.bytes ≠ []) :
      Advance rules now status c c.read
  | leave {deadline : Nat} (phase : c.phase = .lingering deadline) (found : c.buffer.bytes = [])
      (unread : c.inbound.bytes = []) : Advance rules now status c (c.finish .drained)
  | turnAway {deadline : Nat} (phase : c.phase = .lingering deadline) (found : c.buffer.bytes ≠ []) :
      Advance rules now status c (c.refuse .serviceUnavailable closingMessage .drained)

variable {c} {rules : ConnectionRules} {now : Nat} {status : ShutdownState} {after : Connection}

theorem examine_advance {deadline : Nat} (hp : c.phase = .examining deadline) :
    Advance rules now status c (c.examine rules now status deadline) := by
  unfold examine
  split
  · next hs => exact .drain (.inl hp) (by simpa using hs)
  · next hs =>
    have hruns : status.isRunning = true := by simpa using hs
    split
    · next h => exact .wait hp hruns h
    · next h => exact .take hp hruns h
    · next h => exact .refuse hp hruns h

theorem awaitBytes_advance {deadline : Nat} (hp : c.phase = .reading deadline)
    (h : c.awaitBytes rules now status deadline = some after) : Advance rules now status c after := by
  unfold awaitBytes at h
  split at h
  · next hs =>
    cases h
    exact .drain (.inr hp) (by simpa using hs)
  · next hs =>
    have hruns : status.isRunning = true := by simpa using hs
    split at h
    · next hbytes =>
      cases h
      exact .read hp hruns (by simpa using hbytes)
    · next hbytes =>
      have hempty : c.inbound.bytes = [] := by simpa using hbytes
      split at h
      · cases h
        exact .giveUp hp hruns hempty (.inl rfl)
      · split at h
        · cases h
          exact .giveUp hp hruns hempty (.inr rfl)
        · cases h

theorem dispatch_advance {request : Request} (hp : c.phase = .dispatching request) :
    Advance rules now status c (c.dispatch rules now status request) := by
  unfold dispatch
  split
  · next hs => exact .force (by rw [hp]; rfl) hs
  · next hs =>
    have hruns : status.isTerminated = false := by simpa using hs
    split
    · next outcome h => exact .answer hp hruns h
    · next reaction h => exact .begin hp hruns h

/-- Whether a handler is too late does not depend on when that is noticed. -/
theorem awaitHandler_advance {exchange : Exchange} {deadline ends : Nat} {completion : Completion}
    (hp : c.phase = .handling exchange deadline ends completion)
    (h : c.awaitHandler rules now status exchange deadline ends completion = some after) :
    Advance rules now status c after := by
  unfold awaitHandler at h
  split at h
  · next hs =>
    cases h
    exact .force (by rw [hp]; rfl) hs
  · next hs =>
    have hruns : status.isTerminated = false := by simpa using hs
    have hconclude : Advance rules now status c _ := .conclude hp hruns
    split at h
    · next hlate =>
      cases h
      rw [Bool.and_eq_true, decide_eq_true_eq, decide_eq_true_eq] at hlate
      rwa [Dispatcher.outcomeBy, if_neg (by omega)] at hconclude
    · next hlate =>
      split at h
      · next hends =>
        cases h
        rw [Bool.and_eq_true, decide_eq_true_eq, decide_eq_true_eq] at hlate
        rwa [Dispatcher.outcomeBy, if_pos (by omega)] at hconclude
      · cases h

theorem writeAnswer_advance {rest : Bytes} {sequel : Sequel} (hp : c.phase = .answering rest sequel)
    (h : c.writeAnswer rules now status rest sequel = some after) : Advance rules now status c after := by
  unfold writeAnswer at h
  split at h
  · next hs =>
    cases h
    exact .force (by rw [hp]; rfl) hs
  · next hs =>
    have hruns : status.isTerminated = false := by simpa using hs
    split at h
    · next hempty =>
      cases h
      rw [List.isEmpty_iff.1 hempty] at hp
      exact .follow hp hruns
    · next hmore =>
      have hmore : rest ≠ [] := by simpa using hmore
      split at h
      · next hclosed =>
        cases h
        exact .breakOff hp hmore hclosed hruns
      · split at h
        · cases h
        · next hroom =>
          cases h
          exact .write hp hmore hruns (Nat.pos_of_ne_zero hroom)

theorem writeRefusal_advance {rest : Bytes} {reason : CloseReason} (hp : c.phase = .refusing rest reason)
    (h : c.writeRefusal rest reason = some after) : Advance rules now status c after := by
  unfold writeRefusal at h
  split at h
  · next hdone =>
    cases h
    rw [Bool.or_eq_true, List.isEmpty_iff] at hdone
    exact .dismiss hp hdone
  · next hmore =>
    split at h
    · cases h
    · next hroom =>
      cases h
      simp only [Bool.or_eq_true, List.isEmpty_iff, not_or, Bool.not_eq_true] at hmore
      exact .writeRefusal hp hmore.1 hmore.2 (Nat.pos_of_ne_zero hroom)

/-- A connection that leaves has read what there is, or more than the limit. -/
theorem leave_advance {deadline : Nat} (hp : c.phase = .lingering deadline)
    (hunread : c.inbound.bytes = [] ∨ c.buffer.bytes ≠ []) : Advance rules now status c c.leave := by
  unfold leave
  split
  · next hempty =>
    have hnothing := List.isEmpty_iff.1 hempty
    exact .leave hp hnothing (hunread.resolve_right fun hfound => hfound hnothing)
  · next hmore => exact .turnAway hp (by simpa using hmore)

theorem linger_advance {deadline : Nat} (hp : c.phase = .lingering deadline)
    (h : c.linger rules now deadline = some after) : Advance rules now status c after := by
  unfold linger at h
  split at h
  · next hlong =>
    cases h
    refine leave_advance hp (.inr fun hnothing => ?_)
    rw [hnothing] at hlong
    exact Nat.not_lt_zero _ hlong
  · split at h
    · next hbytes =>
      cases h
      exact .linger hp (by simpa using hbytes)
    · next hbytes =>
      split at h
      · cases h
        exact leave_advance hp (.inl (by simpa using hbytes))
      · cases h

/-- A step is one of these. -/
theorem step_advance (h : c.step rules now status = some after) : Advance rules now status c after := by
  unfold step at h
  split at h
  · next hp =>
    cases h
    exact examine_advance hp
  · next hp => exact awaitBytes_advance hp h
  · next hp =>
    cases h
    exact dispatch_advance hp
  · next hp => exact awaitHandler_advance hp h
  · next hp => exact writeAnswer_advance hp h
  · next hp => exact writeRefusal_advance hp h
  · next hp => exact linger_advance hp h
  · cases h

/-- A step leaves the pipes as they are, closes them, reads or writes. -/
theorem Advance.pipes (h : Advance rules now status c after) :
    (after.inbound = c.inbound ∨ after.inbound = c.inbound.close ∨
      ∃ most, after.inbound = (c.inbound.read most).2) ∧
    (after.outbound = c.outbound ∨ after.outbound = c.outbound.close ∨
      ∃ bytes, after.outbound = (c.outbound.write bytes).2) := by
  cases h with
  | wait | refuse | begin | turnAway => exact ⟨.inl rfl, .inl rfl⟩
  | drain => exact ⟨.inl (inbound_move c _), .inl (outbound_move c _)⟩
  | take => exact ⟨.inl (inbound_move _ _), .inl (outbound_move _ _)⟩
  | read | linger => exact ⟨.inr (.inr ⟨_, rfl⟩), .inl rfl⟩
  | giveUp | force | breakOff | dismiss | leave => exact ⟨.inr (.inl rfl), .inr (.inl rfl)⟩
  | answer => exact ⟨.inl (inbound_answer _ _ _ _), .inl (answer_adds _ _ _ _).2.2.2.2⟩
  | conclude => exact ⟨.inl (inbound_answer c _ _ _), .inl (answer_adds c _ _ _).2.2.2.2⟩
  | @follow sequel =>
    cases sequel with
    | goOn | drain => exact ⟨.inl (inbound_move _ _), .inl (outbound_move _ _)⟩
    | close reason => exact ⟨.inr (.inl rfl), .inr (.inl rfl)⟩
  | write | writeRefusal => exact ⟨.inl rfl, .inr (.inr ⟨_, rfl⟩)⟩

/-- The state of the shutdown that a step has sampled: one that comes to an answer looks at it. -/
def samples (status : ShutdownState) (before after : Connection) : List ShutdownState :=
  match before.phase, after.phase with
  | .dispatching _, .answering .. | .handling .., .answering .. => [status]
  | _, _ => []

end Connection

/-- A request that has been dispatched, with the dispatcher as it was then. -/
structure Call where
  request : Request
  dispatcher : Dispatcher

namespace Call

/-- What has come of the request. -/
def outcome (call : Call) : Except DispatchError Response := call.dispatcher.dispatch call.request

end Call

/-- The request that a step has dispatched. -/
def Connection.calls (dispatcher : Dispatcher) (before after : Connection) : List Call :=
  match before.phase, after.phase with
  | .dispatching request, .answering .. | .dispatching request, .handling .. => [⟨request, dispatcher⟩]
  | _, _ => []

/-- A step neither dispatches nor samples anything. -/
def Connection.Quiet (before after : Connection) : Prop :=
  ∀ dispatcher status, before.calls dispatcher after = [] ∧ before.samples status after = []

theorem Connection.quiet_of_works {before after : Connection} (h : after.phase.works = false) :
    before.Quiet after := by
  intro dispatcher status
  cases hb : before.phase <;> cases ha : after.phase <;> simp_all [calls, samples, Phase.works]

/-- The rules with other routes and handlers, under the same limits. -/
def ConnectionRules.withTable (table : Table) (rules : ConnectionRules) : ConnectionRules :=
  { rules with dispatcher := { rules.dispatcher with table } }

/-! ## Lifetimes -/

/-- A connection at some time, the state of the shutdown, all that its peer has sent and received, the requests that
have been dispatched, the states of the shutdown that the connection has sampled, and whether the peer has hung up. -/
structure Lifetime where
  connection : Connection
  now : Nat
  shutdown : ShutdownState
  sent : Bytes
  received : Bytes
  calls : List Call
  sampled : List ShutdownState
  hungUp : Bool

namespace Lifetime

/-- A new connection. -/
def start (rules : ConnectionRules) (id : ConnectionId) (capacity now : Nat) : Lifetime where
  connection := .accept id capacity now rules
  now
  shutdown := .running
  sent := []
  received := []
  calls := []
  sampled := []
  hungUp := false

/-- A connection after a step, with what the step has dispatched and sampled. -/
def stepped (dispatcher : Dispatcher) (c : Connection) (t : Lifetime) : Lifetime :=
  { t with
    connection := c
    calls := t.calls ++ t.connection.calls dispatcher c
    sampled := t.sampled ++ t.connection.samples t.shutdown c }

/-- What can happen: the connection takes a step, its peer sends a piece, ends its sending side, hangs up or receives
bytes, time passes, the shutdown begins or ends, or the buffer gets another place in memory. Handlers may keep a state
and so come to another outcome each time: each step finds them as some table has them. An answer is written and counted
in one go, so the shutdown does not come between its last byte and that. -/
inductive Move (rules : ConnectionRules) : Lifetime → Lifetime → Prop
  | step {t : Lifetime} {c : Connection} (table : Table)
      (h : t.connection.step (rules.withTable table) t.now t.shutdown = some c) :
      Move rules t (t.stepped (rules.withTable table).dispatcher c)
  | send {t : Lifetime} (piece : Bytes) (h : t.connection.inbound.closed = false) :
      Move rules t { t with
        connection := { t.connection with inbound := t.connection.inbound.send piece }
        sent := t.sent ++ piece }
  | endSending {t : Lifetime} :
      Move rules t { t with connection := { t.connection with inbound := t.connection.inbound.close } }
  | hangUp {t : Lifetime} :
      Move rules t { t with
        connection := { t.connection with
          inbound := t.connection.inbound.close, outbound := t.connection.outbound.close }
        hungUp := true }
  | receive {t : Lifetime} (most : Nat) :
      Move rules t { t with
        connection := { t.connection with outbound := (t.connection.outbound.read most).2 }
        received := t.received ++ (t.connection.outbound.read most).1 }
  | pass {t : Lifetime} (ms : Nat) : Move rules t { t with now := t.now + ms }
  | shutDown {t : Lifetime} (next : ShutdownState) (begun : next ≠ .running) (unended : t.shutdown ≠ .terminated)
      (counted : ∀ sequel, t.connection.phase ≠ .answering [] sequel) : Move rules t { t with shutdown := next }
  | reserve {t : Lifetime} (capacity gap : Nat) :
      Move rules t { t with connection := { t.connection with buffer := ⟨capacity, gap, t.connection.buffer.bytes⟩ } }

/-- Moves one after another. -/
inductive Run (rules : ConnectionRules) (t : Lifetime) : Lifetime → Prop
  | refl : Run rules t t
  | move {u v : Lifetime} (run : Run rules t u) (next : Move rules u v) : Run rules t v

variable {rules : ConnectionRules} {t u v : Lifetime}

theorem Run.trans (h : Run rules t u) (h' : Run rules u v) : Run rules t v := by
  induction h' with
  | refl => exact h
  | move _ next ih => exact ih.move next

/-- A step that calls no handler and samples no shutdown adds nothing to what has been recorded. -/
theorem Run.quietly {c : Connection} (h : t.connection.step rules t.now t.shutdown = some c)
    (hquiet : t.connection.Quiet c) : Run rules t { t with connection := c } := by
  obtain ⟨hcalls, hsamples⟩ := hquiet rules.dispatcher t.shutdown
  have hmove : Move rules t (t.stepped rules.dispatcher c) := .step rules.dispatcher.table h
  rw [stepped, hcalls, hsamples, List.append_nil, List.append_nil] at hmove
  exact Run.refl.move hmove

/-- What is there is read. -/
theorem run_read (rules : ConnectionRules) {deadline : Nat} (hp : t.connection.phase = .reading deadline)
    (hs : t.shutdown.isRunning = true) (hbytes : t.connection.inbound.bytes ≠ []) :
    Run rules t { t with connection := t.connection.read.await rules t.now } := by
  refine Run.quietly ?_ (Connection.quiet_of_works rfl)
  rw [Connection.step, hp]
  simp [Connection.awaitBytes, hs, hbytes]

/-- A request that has come is taken. -/
theorem run_serve (rules : ConnectionRules) {deadline : Nat} {request : Request} {rest : Bytes}
    (hp : t.connection.phase = .examining deadline) (hs : t.shutdown = .running)
    (found : Admission.ofBuffer rules.maxRequestBytes t.connection.buffer.bytes = .serve request rest) :
    Run rules t { t with connection := Connection.move .active { t.connection with
      phase := .dispatching request
      buffer := t.connection.buffer.keep rest } } := by
  refine Run.quietly ?_ fun dispatcher status => ?_
  · rw [Connection.step, hp]
    simp only [Connection.examine, hs, found, ShutdownState.isRunning, Bool.not_true, Bool.false_eq_true, if_false]
  · simp only [Connection.calls, Connection.samples, hp, and_self]

/-- A request that needs no handler is answered. -/
theorem run_dispatch (rules : ConnectionRules) {request : Request} {outcome : Except DispatchError Response}
    (hp : t.connection.phase = .dispatching request) (hs : t.shutdown = .running)
    (plan : rules.dispatcher.plan request = .answer outcome) :
    Run rules t { t with
      connection := (t.connection.note (.dispatched request)).answer .running outcome
        (.ofRequest rules.compress rules.encode request)
      calls := t.calls ++ [⟨request, rules.dispatcher⟩]
      sampled := t.sampled ++ [.running] } := by
  let c : Connection := (t.connection.note (.dispatched request)).answer .running outcome
    (.ofRequest rules.compress rules.encode request)
  have hanswer : t.connection.step rules t.now t.shutdown = some c := by
    rw [Connection.step, hp]
    simp only [Connection.dispatch, plan, hs, ShutdownState.isTerminated, Bool.false_eq_true, if_false, c]
  have hcalls : t.connection.calls rules.dispatcher c = [⟨request, rules.dispatcher⟩] := by
    simp only [Connection.calls, hp]
    rfl
  have hsamples : t.connection.samples t.shutdown c = [.running] := by
    simp only [Connection.samples, hp, hs]
    rfl
  have hmove : Move rules t (t.stepped rules.dispatcher c) := .step rules.dispatcher.table hanswer
  rw [stepped, hcalls, hsamples] at hmove
  exact Run.refl.move hmove

/-- An answer that there is room for is written at once. -/
theorem run_write (rules : ConnectionRules) {bytes : Bytes} {sequel : Sequel}
    (hp : t.connection.phase = .answering bytes sequel) (hs : t.shutdown = .running) (hne : bytes ≠ [])
    (hopen : t.connection.outbound.closed = false) (hroom : bytes.length ≤ t.connection.outbound.room) :
    Run rules t { t with connection := { t.connection with
      phase := .answering [] sequel
      outbound := { t.connection.outbound with bytes := t.connection.outbound.bytes ++ bytes } } } := by
  have hsome : t.connection.outbound.room ≠ 0 := by
    have hpos := List.length_pos_iff.2 hne
    omega
  refine Run.quietly ?_ fun dispatcher status => ?_
  · rw [Connection.step, hp]
    simp only [Connection.writeAnswer, hs, ShutdownState.isTerminated, List.isEmpty_iff, hne, hopen, hsome, Pipe.write,
      List.drop_of_length_le hroom, List.take_of_length_le hroom, Bool.false_eq_true, if_false]
  · simp only [Connection.calls, Connection.samples, hp, and_self]

/-- What follows an answer that has been written. -/
theorem run_follow (rules : ConnectionRules) {sequel : Sequel} (hp : t.connection.phase = .answering [] sequel)
    (hs : t.shutdown = .running) :
    Run rules t { t with
      connection := Connection.follow rules t.now sequel { t.connection with served := t.connection.served + 1 } } := by
  refine Run.quietly ?_ fun dispatcher status => ?_
  · rw [Connection.step, hp]
    simp only [Connection.writeAnswer, hs, ShutdownState.isTerminated, List.isEmpty_nil, Bool.false_eq_true, if_false,
      if_true]
  · simp only [Connection.calls, Connection.samples, hp, and_self]

/-- The bytes that have been written, those still on their way included. -/
def written (t : Lifetime) : Bytes := t.received ++ t.connection.outbound.bytes

/-- Both pipes hold so many bytes, and while the peer can send none waits for room that is there. -/
structure Piped (capacity : Nat) (t : Lifetime) : Prop where
  inbound : t.connection.inbound.capacity = capacity
  outbound : t.connection.outbound.capacity = capacity
  settled : t.connection.inbound.closed = false → t.connection.inbound.Settled

theorem piped_start (rules : ConnectionRules) (id : ConnectionId) (capacity now : Nat) :
    (start rules id capacity now).Piped capacity := ⟨rfl, rfl, fun _ => .inl rfl⟩

theorem Piped.move {capacity : Nat} (h : t.Piped capacity) (hm : Move rules t u) : u.Piped capacity := by
  cases hm with
  | step table hstep =>
    obtain ⟨hin, hout⟩ := (Connection.step_advance hstep).pipes
    constructor
    case inbound =>
      rcases hin with hin | hin | ⟨most, hin⟩
      · exact (congrArg _ hin).trans h.inbound
      · exact (congrArg _ hin).trans h.inbound
      · exact ((congrArg _ hin).trans (Pipe.capacity_read _ _)).trans h.inbound
    case outbound =>
      rcases hout with hout | hout | ⟨bytes, hout⟩
      all_goals exact (congrArg _ hout).trans h.outbound
    case settled =>
      show Pipe.closed _ = false → Pipe.Settled _
      rcases hin with hin | hin | ⟨most, hin⟩
      · rw [stepped, hin]
        exact h.settled
      · rw [stepped, hin]
        nofun
      · rw [stepped, hin, Pipe.closed_read]
        exact fun hopen => Pipe.settled_read_of_open hopen most
  | send piece hopen =>
    refine ⟨?_, h.outbound, fun _ => Pipe.settled_send hopen piece⟩
    show (Pipe.send _ _).capacity = _
    rw [Pipe.send_of_open hopen, Pipe.capacity_refill]
    exact h.inbound
  | endSending => exact ⟨h.inbound, h.outbound, nofun⟩
  | hangUp => exact ⟨h.inbound, h.outbound, nofun⟩
  | receive most => exact ⟨h.inbound, (Pipe.capacity_read _ _).trans h.outbound, h.settled⟩
  | pass ms => exact ⟨h.inbound, h.outbound, h.settled⟩
  | shutDown next begun unended counted => exact ⟨h.inbound, h.outbound, h.settled⟩
  | reserve capacity gap => exact ⟨h.inbound, h.outbound, h.settled⟩

theorem Run.piped {capacity : Nat} (hrun : Run rules t u) (h : t.Piped capacity) : u.Piped capacity := by
  induction hrun with
  | refl => exact h
  | move _ next ih => exact ih.move next

/-- These bytes have come, and nothing has been made of them yet. -/
structure Arrived (capacity : Nat) (b : Bytes) (t : Lifetime) : Prop where
  phase : ∃ deadline, t.connection.phase = .examining deadline
  buffer : t.connection.buffer.bytes = b
  inbound : t.connection.inbound.bytes = []
  outbound : t.connection.outbound = .ofCapacity capacity
  dispatched : t.connection.dispatched = []
  refused : t.connection.refused = []
  shutdown : t.shutdown = .running
  sent : t.sent = b
  received : t.received = []
  calls : t.calls = []
  sampled : t.sampled = []

/-- Bytes come in one piece. -/
theorem run_arrive {b : Bytes} (rules : ConnectionRules) (id : ConnectionId) (capacity now : Nat) (hne : b ≠ [])
    (hcapacity : b.length ≤ capacity) : ∃ t, Run rules (start rules id capacity now) t ∧ t.Arrived capacity b := by
  have hsend : (Pipe.ofCapacity capacity).send b = ⟨capacity, b, [], false⟩ := Pipe.send_of_empty rfl rfl hcapacity
  have hroom : (ReadBuffer.mk (0 + b.length) 0 []).room = b.length :=
    ReadBuffer.room_of_front [] (List.length_pos_iff.2 hne)
  let c : Connection :=
    { Connection.accept id capacity now rules with
      inbound := ⟨capacity, b, [], false⟩
      buffer := ⟨0 + b.length, 0, []⟩ }
  have hsent : Move rules (start rules id capacity now) { start rules id capacity now with
      connection := { Connection.accept id capacity now rules with inbound := ⟨capacity, b, [], false⟩ }
      sent := b } := by
    rw [← hsend]
    exact .send b rfl
  have hrun : Run rules (start rules id capacity now) { start rules id capacity now with connection := c, sent := b } :=
    (Run.refl.move hsent).move (.reserve (0 + b.length) 0)
  -- there is nothing to look at first
  have hwait : Run rules { start rules id capacity now with connection := c, sent := b }
      { start rules id capacity now with
        connection := { c with phase := .reading (now + rules.idleTimeout) }, sent := b } :=
    Run.quietly rfl (Connection.quiet_of_works rfl)
  have hread := run_read rules (t := { start rules id capacity now with
    connection := { c with phase := .reading (now + rules.idleTimeout) }, sent := b }) rfl rfl hne
  simp only [Connection.read, Connection.await, c, hroom, Pipe.read_of_waiting, List.take_length,
    List.drop_length] at hread
  exact ⟨_, (hrun.trans hwait).trans hread, ⟨_, rfl⟩, rfl, rfl, rfl, rfl, rfl, rfl, rfl, rfl, rfl, rfl⟩

/-- A request that comes in one piece is taken. -/
theorem run_take {b rest : Bytes} {request : Request} (rules : ConnectionRules) (id : ConnectionId)
    (capacity now : Nat) (hne : b ≠ []) (hcapacity : b.length ≤ capacity)
    (found : Admission.ofBuffer rules.maxRequestBytes b = .serve request rest) :
    ∃ t, Run rules (start rules id capacity now) t ∧ t.sent = b ∧ t.calls = [] ∧ t.sampled = [] ∧
      t.shutdown = .running ∧ t.connection.phase = .dispatching request ∧ t.connection.dispatched = [] := by
  obtain ⟨t, hrun, ht⟩ := run_arrive rules id capacity now hne hcapacity
  obtain ⟨deadline, hphase⟩ := ht.phase
  have htaken := run_serve rules hphase ht.shutdown (ht.buffer ▸ found)
  refine ⟨_, hrun.trans htaken, ht.sent, ht.calls, ht.sampled, ht.shutdown, ?_, ?_⟩
  · exact Connection.phase_move _ _
  · exact (Connection.dispatched_move _ _).trans ht.dispatched

/-- A request that comes in one piece, and needs no handler, is answered. -/
theorem run_answer {b rest : Bytes} {request : Request} {outcome : Except DispatchError Response}
    (rules : ConnectionRules) (id : ConnectionId) (capacity now : Nat) (hne : b ≠ []) (hcapacity : b.length ≤ capacity)
    (found : Admission.ofBuffer rules.maxRequestBytes b = .serve request rest)
    (plan : rules.dispatcher.plan request = .answer outcome) :
    ∃ t, Run rules (start rules id capacity now) t ∧ t.sent = b ∧ t.calls = [⟨request, rules.dispatcher⟩] ∧
      t.sampled = [.running] ∧ t.connection.dispatched = [request] := by
  obtain ⟨t, hrun, hsent, hcalls, hsampled, hshutdown, hphase, hdispatched⟩ :=
    run_take rules id capacity now hne hcapacity found
  refine ⟨_, hrun.trans (run_dispatch rules hphase hshutdown plan), hsent, ?_, ?_, ?_⟩
  · rw [hcalls, List.nil_append]
  · rw [hsampled, List.nil_append]
  · rw [(Connection.answer_adds _ _ _ _).1, Connection.dispatched_note_dispatched, hdispatched, List.nil_append]

/-- A request that comes in one piece, and is given to a handler, is answered once the handler has ended, or has been
given up. -/
theorem run_handle {b rest : Bytes} {request : Request} {reaction : Reaction} (rules : ConnectionRules)
    (id : ConnectionId) (capacity now : Nat) (hne : b ≠ []) (hcapacity : b.length ≤ capacity)
    (found : Admission.ofBuffer rules.maxRequestBytes b = .serve request rest)
    (plan : rules.dispatcher.plan request = .run reaction) :
    ∃ t, Run rules (start rules id capacity now) t ∧ t.sent = b ∧ t.calls = [⟨request, rules.dispatcher⟩] ∧
      t.sampled = [.running] ∧ t.connection.dispatched = [request] := by
  obtain ⟨t, hrun, hsent, hcalls, hsampled, hshutdown, hphase, hdispatched⟩ :=
    run_take rules id capacity now hne hcapacity found
  let x : Exchange := .ofRequest rules.compress rules.encode request
  let c : Connection := { t.connection.note (.dispatched request) with
    phase := .handling x (t.now + rules.dispatcher.limit.millis) (t.now + reaction.delay) reaction.completion }
  have hbegin : t.connection.step rules t.now t.shutdown = some c := by
    rw [Connection.step, hphase]
    simp only [Connection.dispatch, plan, hshutdown, ShutdownState.isTerminated, Bool.false_eq_true, if_false, c, x]
  -- when both the limit and the handler's own time have passed, the handler has ended or is given up
  let later : Nat := t.now + (rules.dispatcher.limit.millis + reaction.delay)
  have hends : ∃ outcome, c.step rules later t.shutdown = some (c.answer t.shutdown outcome x) := by
    have hphase : c.phase = .handling x (t.now + rules.dispatcher.limit.millis) (t.now + reaction.delay)
      reaction.completion := rfl
    rw [Connection.step, hphase]
    simp only [Connection.awaitHandler, hshutdown, ShutdownState.isTerminated, Bool.false_eq_true, if_false]
    split
    · exact ⟨_, rfl⟩
    · rw [if_pos (by omega)]
      exact ⟨_, rfl⟩
  obtain ⟨outcome, hends⟩ := hends
  have hbegun := hrun.move (.step rules.dispatcher.table hbegin)
  refine ⟨_, (hbegun.move (.pass _)).move (.step rules.dispatcher.table hends), hsent, ?_, ?_, ?_⟩
  · simp only [stepped, Connection.calls, hphase, hcalls, c]
    rfl
  · simp only [stepped, Connection.samples, hphase, hsampled, hshutdown, c]
    rfl
  · show (c.answer t.shutdown outcome x).dispatched = _
    rw [(Connection.answer_adds _ _ _ _).1]
    show (t.connection.note (.dispatched request)).dispatched = _
    rw [Connection.dispatched_note_dispatched, hdispatched]
    rfl

/-- A request that comes in one piece is answered. -/
theorem run_request {b rest : Bytes} {request : Request} (rules : ConnectionRules) (id : ConnectionId)
    (capacity now : Nat) (hne : b ≠ []) (hcapacity : b.length ≤ capacity)
    (found : Admission.ofBuffer rules.maxRequestBytes b = .serve request rest) :
    ∃ t, Run rules (start rules id capacity now) t ∧ t.sent = b ∧ t.calls = [⟨request, rules.dispatcher⟩] ∧
      t.sampled = [.running] ∧ t.connection.dispatched = [request] := by
  cases hplan : rules.dispatcher.plan request with
  | run reaction => exact run_handle rules id capacity now hne hcapacity found hplan
  | answer outcome => exact run_answer rules id capacity now hne hcapacity found hplan

/-- These requests have been answered while no shutdown had begun, all that has been written is still on its way, and
these bytes have come after the requests. -/
structure Between (capacity : Nat) (calls : List Call) (written b : Bytes) (t : Lifetime) : Prop where
  buffer : t.connection.buffer.bytes = b
  outbound : t.connection.outbound = ⟨capacity, written, [], false⟩
  shutdown : t.shutdown = .running
  received : t.received = []
  sampled : t.sampled = calls.map fun _ => .running
  calls : t.calls = calls

theorem Arrived.between {capacity : Nat} {b : Bytes} (h : t.Arrived capacity b) : t.Between capacity [] [] b :=
  ⟨h.buffer, h.outbound, h.shutdown, h.received, h.sampled, h.calls⟩

section

variable {capacity deadline : Nat} {calls : List Call} {written b rest : Bytes} {request : Request}
  {outcome : Except DispatchError Response}

/-- The next request needs no handler and there is room for its answer. -/
theorem Between.run_turn (h : t.Between capacity calls written b) (hp : t.connection.phase = .examining deadline)
    (found : Admission.ofBuffer rules.maxRequestBytes b = .serve request rest)
    (plan : rules.dispatcher.plan request = .answer outcome) {a : Answer} (ha : rules.answer request = a)
    (hne : a.bytes ≠ []) (hroom : (written ++ a.bytes).length ≤ capacity) :
    ∃ u, Run rules t u ∧ u.sent = t.sent ∧ u.connection.phase = .answering [] a.sequel ∧
      u.Between capacity (calls ++ [⟨request, rules.dispatcher⟩]) (written ++ a.bytes) rest := by
  let x : Exchange := .ofRequest rules.compress rules.encode request
  obtain rfl : x.answer true outcome = a := by
    rw [← ha, ConnectionRules.answer, Dispatcher.dispatch, plan]
  let taken : Connection := Connection.move .active
    { t.connection with phase := .dispatching request, buffer := t.connection.buffer.keep rest }
  let answered : Connection := (taken.note (.dispatched request)).answer .running outcome x
  have hbuffer : answered.buffer = t.connection.buffer.keep rest :=
    (Connection.buffer_answer _ _ _ _).trans (Connection.buffer_move _ _)
  have houtbound : answered.outbound = ⟨capacity, written, [], false⟩ := by
    obtain ⟨-, -, -, -, hsame⟩ := (taken.note (.dispatched request)).answer_adds .running outcome x
    exact (hsame.trans (Connection.outbound_move _ _)).trans h.outbound
  have hopen : answered.outbound.closed = false := by rw [houtbound]
  have hfits : (x.answer true outcome).bytes.length ≤ answered.outbound.room := by
    rw [List.length_append] at hroom
    rw [houtbound]
    exact Nat.le_sub_of_add_le' hroom
  have htaken := run_serve rules hp h.shutdown (h.buffer ▸ found)
  have hanswered := htaken.trans (run_dispatch rules (Connection.phase_move _ _) h.shutdown plan)
  refine ⟨_, hanswered.trans (run_write rules rfl h.shutdown hne hopen hfits), rfl, rfl, ?_⟩
  constructor
  case buffer => exact congrArg ReadBuffer.bytes hbuffer
  case outbound =>
    exact congrArg (fun p : Pipe => { p with bytes := p.bytes ++ (x.answer true outcome).bytes }) houtbound
  case shutdown => exact h.shutdown
  case received => exact h.received
  case sampled =>
    show t.sampled ++ [.running] = _
    rw [h.sampled, List.map_append, List.map_singleton]
  case calls =>
    show t.calls ++ [_] = _
    rw [h.calls]

/-- An answer that keeps the connection is followed by the next request. -/
theorem Between.run_next (h : t.Between capacity calls written b) (rules : ConnectionRules)
    (hp : t.connection.phase = .answering [] .goOn) :
    ∃ u, Run rules t u ∧ u.sent = t.sent ∧ u.connection.phase = .examining (t.now + rules.idleTimeout) ∧
      u.Between capacity calls written b := by
  refine ⟨_, run_follow rules hp h.shutdown, rfl, rfl, ?_⟩
  constructor
  case buffer => exact (congrArg ReadBuffer.bytes (Connection.buffer_move _ _)).trans h.buffer
  case outbound => exact (Connection.outbound_move _ _).trans h.outbound
  case shutdown => exact h.shutdown
  case received => exact h.received
  case sampled => exact h.sampled
  case calls => exact h.calls

end

end Lifetime

end Hypertext
