/-
Transmissions: a connection and its peer, in time. The peer sends a stream in pieces and closes its side after the
last one; the connection takes what it finds, in reads of any size, while time passes and handlers end. What comes of
it is the conversation of the stream, however the stream was cut.

The proof is an invariant: what has happened so far, followed by what the bytes that are still on their way lead to,
is the conversation of the whole stream.
-/
import Hypertext.Proofs.Server.Conversation
import Mathlib.Tactic.SplitIfs

namespace Hypertext

/-! ## Pipes -/

namespace Pipe

/-- Nothing waits for room that is there. -/
def Settled (p : Pipe) : Prop := p.waiting = [] ∨ p.capacity ≤ p.bytes.length

@[simp]
theorem capacity_refill (p : Pipe) : p.refill.capacity = p.capacity := by
  unfold refill
  split <;> rfl

@[simp]
theorem closed_refill (p : Pipe) : p.refill.closed = p.closed := by
  unfold refill
  split <;> rfl

theorem settled_refill {p : Pipe} (h : p.closed = true → p.waiting = []) : p.refill.Settled := by
  unfold refill
  split
  · next hc => exact .inl (h hc)
  · simp only [Settled, room, List.drop_eq_nil_iff, List.length_append, List.length_take]
    omega

theorem refill_of_waiting {p : Pipe} (h : p.waiting = []) : p.refill = p := by
  unfold refill
  split
  · rfl
  · cases p
    simp_all

@[simp]
theorem capacity_read (most : Nat) (p : Pipe) : (p.read most).2.capacity = p.capacity := capacity_refill _

@[simp]
theorem closed_read (most : Nat) (p : Pipe) : (p.read most).2.closed = p.closed := closed_refill _

theorem read_of_waiting {p : Pipe} (h : p.waiting = []) (most : Nat) :
    p.read most = (p.bytes.take most, { p with bytes := p.bytes.drop most }) := by
  have hrefill := refill_of_waiting (p := { p with bytes := p.bytes.drop most }) h
  rw [read, hrefill]

theorem waiting_read {p : Pipe} (h : p.waiting = []) (most : Nat) : (p.read most).2.waiting = [] := by
  rw [read_of_waiting h]
  exact h

theorem settled_read {p : Pipe} (h : p.closed = true → p.waiting = []) (most : Nat) : (p.read most).2.Settled :=
  settled_refill h

theorem settled_read_of_open {p : Pipe} (hopen : p.closed = false) (most : Nat) : (p.read most).2.Settled :=
  settled_read (fun hclosed => absurd hclosed (by simp [hopen])) most

theorem send_of_open {p : Pipe} (hopen : p.closed = false) (bytes : Bytes) :
    p.send bytes = { p with waiting := p.waiting ++ bytes }.refill := if_neg (by simp [hopen])

theorem settled_send {p : Pipe} (hopen : p.closed = false) (bytes : Bytes) : (p.send bytes).Settled := by
  rw [send_of_open hopen]
  exact settled_refill fun hclosed => absurd hclosed (by simp [hopen])

/-- An empty pipe takes what it can hold. -/
theorem send_of_empty {p : Pipe} (hopen : p.closed = false) (hempty : p.contents = []) {bytes : Bytes}
    (hle : bytes.length ≤ p.capacity) : p.send bytes = { p with bytes, waiting := [] } := by
  obtain ⟨hbytes, hwaiting⟩ := List.append_eq_nil_iff.1 hempty
  simp only [send, refill, room, hopen, hbytes, hwaiting, Bool.false_eq_true, if_false, List.nil_append, List.length_nil,
    Nat.sub_zero, List.take_of_length_le hle, List.drop_of_length_le hle]

theorem Settled.waiting_eq_nil {p : Pipe} (h : p.Settled) (hc : 0 < p.capacity) (hb : p.bytes = []) :
    p.waiting = [] := by
  rcases h with h | h
  · exact h
  · rw [hb] at h
    exact absurd h (by simp; omega)

end Pipe

/-- A buffer that has so much room behind its bytes. -/
theorem ReadBuffer.room_of_front (bytes : Bytes) {n : Nat} (h : 0 < n) :
    ReadBuffer.room ⟨bytes.length + n, 0, bytes⟩ = n := by
  simp only [room, makeRoom]
  rw [if_pos (by omega)]
  simp

/-! ## What a step of a connection leaves alone -/

namespace Connection

/-- The requests that were given to the dispatcher, in order. -/
def dispatched (c : Connection) : List Request :=
  c.history.filterMap fun event =>
    match event with
    | .dispatched request => some request
    | _ => none

variable (c : Connection) (event : ConnectionEvent) (next : ConnectionState) (reason : CloseReason)

@[simp]
theorem dispatched_note_dispatched (request : Request) :
    (c.note (.dispatched request)).dispatched = c.dispatched ++ [request] := by
  simp [dispatched, note]

@[simp]
theorem dispatched_note_answered (bytes : Bytes) : (c.note (.answered bytes)).dispatched = c.dispatched := by
  simp [dispatched, note]

@[simp]
theorem dispatched_note_refused (bytes : Bytes) : (c.note (.refused bytes)).dispatched = c.dispatched := by
  simp [dispatched, note]

@[simp]
theorem dispatched_move : (c.move next).dispatched = c.dispatched := by
  unfold move
  split
  · rfl
  · simp [dispatched, note]

@[simp]
theorem phase_move : (c.move next).phase = c.phase := by
  unfold move
  split <;> rfl

@[simp]
theorem buffer_move : (c.move next).buffer = c.buffer := by
  unfold move
  split <;> rfl

@[simp]
theorem inbound_move : (c.move next).inbound = c.inbound := by
  unfold move
  split <;> rfl

@[simp]
theorem outbound_move : (c.move next).outbound = c.outbound := by
  unfold move
  split <;> rfl

@[simp]
theorem dispatched_finish : (c.finish reason).dispatched = c.dispatched := dispatched_move c .closed

@[simp]
theorem dispatched_refuse (status : Status) (message : String) :
    (c.refuse status message reason).dispatched = c.dispatched := dispatched_note_refused c _

@[simp]
theorem dispatched_answer (outcome : Except DispatchError Response) (x : Exchange) :
    (c.answer .running outcome x).dispatched = c.dispatched := dispatched_note_answered c _

/-- The bytes that a step has read, if it has read any. -/
def reads (before after : Connection) : List Bytes :=
  match before.phase, after.phase with
  | .reading _, .examining _ => [after.buffer.bytes.drop before.buffer.bytes.length]
  | _, _ => []

theorem reads_finish (before : Connection) : before.reads (c.finish reason) = [] := by
  unfold reads
  split
  · next h => cases h
  · rfl

end Connection

/-! ## A connection and its peer -/

/-- A connection at some time, what its peer has still to send, and what the peer has received. -/
structure Transmission where
  connection : Connection
  now : Nat
  unsent : Bytes
  received : Bytes

namespace Transmission

/-- A new connection whose peer is going to send a stream. -/
def start (rules : ConnectionRules) (id : ConnectionId) (capacity now : Nat) (stream : Bytes) : Transmission where
  connection := .accept id capacity now rules
  now
  unsent := stream
  received := []

/-- What can happen, and the bytes that are read then: the connection takes a step, the peer sends a piece, closes its
side when it has sent everything, or receives bytes, time passes, or the buffer gets another place in memory. No
shutdown begins. -/
inductive Move (rules : ConnectionRules) : Transmission → List Bytes → Transmission → Prop
  | step {t : Transmission} {c : Connection} (h : t.connection.step rules t.now .running = some c) :
      Move rules t (t.connection.reads c) { t with connection := c }
  | send {t : Transmission} {piece rest : Bytes} (hne : piece ≠ []) (h : t.unsent = piece ++ rest) :
      Move rules t []
        { t with connection := { t.connection with inbound := t.connection.inbound.send piece }, unsent := rest }
  | close {t : Transmission} (h : t.unsent = []) (hw : t.connection.inbound.waiting = []) :
      Move rules t [] { t with connection := { t.connection with inbound := t.connection.inbound.close } }
  | receive {t : Transmission} (most : Nat) :
      Move rules t [] { t with
        connection := { t.connection with outbound := (t.connection.outbound.read most).2 }
        received := t.received ++ (t.connection.outbound.read most).1 }
  | pass {t : Transmission} (ms : Nat) : Move rules t [] { t with now := t.now + ms }
  | reserve {t : Transmission} (capacity gap : Nat) :
      Move rules t []
        { t with connection := { t.connection with buffer := ⟨capacity, gap, t.connection.buffer.bytes⟩ } }

/-- Moves one after another, with all reads. -/
inductive Run (rules : ConnectionRules) (t : Transmission) : List Bytes → Transmission → Prop
  | refl : Run rules t [] t
  | move {reads reads' : List Bytes} {u v : Transmission} (run : Run rules t reads u) (next : Move rules u reads' v) :
      Run rules t (reads ++ reads') v

/-- What has come of a connection that has ended. -/
def conversation? (t : Transmission) : Option Conversation :=
  match t.connection.phase with
  | .closed reason => some ⟨t.connection.dispatched, t.received ++ t.connection.outbound.bytes, reason⟩
  | _ => none

/-! ## The invariant -/

/-- The bytes that the connection has not read yet. -/
def unread (t : Transmission) : Bytes := t.connection.inbound.contents ++ t.unsent

/-- The bytes that have not been taken for a request yet. -/
def pending (t : Transmission) : Bytes := t.connection.buffer.bytes ++ t.unread

end Transmission

/-- The outcome of a handler that ends at a time and has until a deadline. -/
def Dispatcher.outcomeBy (d : Dispatcher) (deadline ends : Nat) (completion : Completion) :
    Except DispatchError Response :=
  if ends < deadline then conclude completion else .error (.handlerTimeout d.limit)

/-- What a phase leads to, given the bytes that have not been taken for a request yet. -/
def Phase.outlook (rules : ConnectionRules) (pending : Bytes) : Phase → Conversation
  | .examining _ | .reading _ => .ofBytes rules pending
  | .dispatching request => (Conversation.ofAnswer rules pending (rules.answer request)).after [request] []
  | .handling exchange deadline ends completion =>
    .ofAnswer rules pending (exchange.answer true (rules.dispatcher.outcomeBy deadline ends completion))
  | .answering rest sequel => (Conversation.ofSequel rules pending sequel).after [] rest
  | .refusing rest reason => (Conversation.ended reason).after [] rest
  | .lingering _ => .ended .drained
  | .closed reason => .ended reason

/-- Whether a phase comes before the end of a connection. -/
def Phase.serves : Phase → Bool
  | .refusing .. | .lingering _ | .closed _ => false
  | _ => true

/-- Whether a phase belongs to the end because of a shutdown. -/
def Phase.drains : Phase → Bool
  | .lingering _ | .answering _ .drain => true
  | _ => false

namespace Transmission

/-- What holds of the pipes of a connection that has not ended; both hold so many bytes. -/
structure Linked (capacity : Nat) (t : Transmission) : Prop where
  outOpen : t.connection.outbound.closed = false
  outCapacity : t.connection.outbound.capacity = capacity
  inCapacity : t.connection.inbound.capacity = capacity
  inSettled : t.connection.inbound.Settled
  sent : t.connection.inbound.closed = true → t.unsent = [] ∧ t.connection.inbound.waiting = []

/-- What has happened and what is going to happen is the conversation of the stream. -/
structure Faithful (rules : ConnectionRules) (capacity : Nat) (stream : Bytes) (t : Transmission) : Prop where
  total : (t.connection.phase.outlook rules t.pending).after t.connection.dispatched
    (t.received ++ t.connection.outbound.bytes) = .ofBytes rules stream
  outWaiting : t.connection.outbound.waiting = []
  linked : t.connection.isClosed = false → t.Linked capacity
  fits : t.connection.phase.serves = true → Request.Fits rules.maxRequestBytes t.pending
  stays : t.connection.phase.drains = false
  examined : ∀ deadline, t.connection.phase = .reading deadline →
    Admission.ofBuffer rules.maxRequestBytes t.connection.buffer.bytes = .wait

variable {rules : ConnectionRules} {capacity : Nat} {stream : Bytes} {t : Transmission}

theorem faithful_start (hfits : Request.Fits rules.maxRequestBytes stream) (id : ConnectionId) (now : Nat) :
    (start rules id capacity now stream).Faithful rules capacity stream where
  total := rfl
  outWaiting := rfl
  linked _ := ⟨rfl, rfl, rfl, .inl rfl, by simp [start, Connection.accept, Pipe.ofCapacity]⟩
  fits _ := hfits
  stays := rfl
  examined := by simp [start, Connection.accept]

/-! ## One step -/

/-- A connection ends for the reason that was to come. -/
theorem Faithful.finish (hf : t.Faithful rules capacity stream) {reason : CloseReason}
    (h : t.connection.phase.outlook rules t.pending = .ended reason) {c : Connection}
    (hout : c.outbound = t.connection.outbound) (hd : c.dispatched = t.connection.dispatched) :
    { t with connection := c.finish reason }.Faithful rules capacity stream where
  total := by
    rw [← hf.total, h, ← hd, ← hout, ← Connection.dispatched_finish c reason]
    rfl
  outWaiting := by
    rw [← hf.outWaiting, ← hout]
    rfl
  linked h := by cases h
  fits h := by cases h
  stays := rfl
  examined := by rintro deadline ⟨⟩

/-- A connection goes on without its pipes. -/
theorem Faithful.next (hf : t.Faithful rules capacity stream) (hopen : t.connection.isClosed = false) {c : Connection}
    (hin : c.inbound = t.connection.inbound) (hout : c.outbound = t.connection.outbound)
    (htotal : (c.phase.outlook rules (c.buffer.bytes ++ t.unread)).after c.dispatched [] =
      (t.connection.phase.outlook rules t.pending).after t.connection.dispatched [])
    (hfits : c.phase.serves = true → Request.Fits rules.maxRequestBytes (c.buffer.bytes ++ t.unread))
    (hstays : c.phase.drains = false)
    (hexamined : ∀ deadline, c.phase = .reading deadline →
      Admission.ofBuffer rules.maxRequestBytes c.buffer.bytes = .wait) :
    { t with connection := c }.Faithful rules capacity stream := by
  obtain ⟨h1, h2, h3, h4, h5⟩ := hf.linked hopen
  have hpending : { t with connection := c }.pending = c.buffer.bytes ++ t.unread := by
    simp only [pending, unread, hin]
  refine ⟨?_, ?_, fun _ => ⟨?_, ?_, ?_, ?_, ?_⟩, ?_, hstays, hexamined⟩
  · have hw := congrArg (Conversation.after [] (t.received ++ t.connection.outbound.bytes)) htotal
    rw [Conversation.after_after, Conversation.after_after] at hw
    rw [hpending, ← hf.total]
    simpa [hout] using hw
  · rw [hout]; exact hf.outWaiting
  · rw [hout]; exact h1
  · rw [hout]; exact h2
  · rw [hin]; exact h3
  · rw [hin]; exact h4
  · rw [hin]; exact h5
  · rw [hpending]; exact hfits

theorem examine_faithful (hf : t.Faithful rules capacity stream) {deadline : Nat}
    (hp : t.connection.phase = .examining deadline) :
    { t with connection := t.connection.examine rules t.now .running deadline }.Faithful rules capacity stream := by
  have hopen : t.connection.isClosed = false := by simp [Connection.isClosed, hp]
  have hfits : Request.Fits rules.maxRequestBytes (t.connection.buffer.bytes ++ t.unread) := hf.fits (by rw [hp]; rfl)
  simp only [Connection.examine, ShutdownState.isRunning, Bool.not_true, Bool.false_eq_true, if_false]
  cases ha : Admission.ofBuffer rules.maxRequestBytes t.connection.buffer.bytes with
  | wait =>
    refine hf.next hopen rfl rfl ?_ (fun _ => hfits) rfl (fun _ _ => ha)
    rw [hp]
    rfl
  | serve request rest =>
    -- the request that is found is also the first one of all bytes that are still to come
    have hserve := Conversation.ofBytes_of_serve (Admission.serve_append ha t.unread)
    refine hf.next hopen (by simp) (by simp) ?_ (fun _ => ?_) (by simp [Phase.drains]) (by simp)
    · rw [hp]
      show _ = (Conversation.ofBytes rules (t.connection.buffer.bytes ++ t.unread)).after _ []
      rw [hserve]
      simp only [Connection.dispatched_move, Connection.phase_move, Connection.buffer_move]
      rfl
    · simpa using Admission.fits_of_serve hfits ha
  | refuse status reason =>
    -- since what is pending fits, bytes that are refused now would be refused with the others, too
    have hrefuse := Conversation.ofBytes_of_refuse (Admission.refuse_of_fits hfits ha)
    refine hf.next hopen rfl rfl ?_ (fun h => by cases h) rfl (by rintro deadline ⟨⟩)
    rw [hp, Connection.dispatched_refuse]
    show _ = (Conversation.ofBytes rules (t.connection.buffer.bytes ++ t.unread)).after _ []
    rw [hrefuse]
    rfl

/-- While no shutdown has begun an answer is written and the connection does not drain after it. -/
theorem answer_faithful (hf : t.Faithful rules capacity stream) (hopen : t.connection.isClosed = false)
    {c : Connection} (hin : c.inbound = t.connection.inbound) (hout : c.outbound = t.connection.outbound)
    (hbuffer : c.buffer = t.connection.buffer) (hserves : t.connection.phase.serves = true)
    {outcome : Except DispatchError Response} {x : Exchange}
    (htotal : (Conversation.ofAnswer rules t.pending (x.answer true outcome)).after c.dispatched [] =
      (t.connection.phase.outlook rules t.pending).after t.connection.dispatched []) :
    { t with connection := c.answer .running outcome x }.Faithful rules capacity stream := by
  have hpending : (c.answer .running outcome x).buffer.bytes ++ t.unread = t.pending := by
    show c.buffer.bytes ++ t.unread = _
    rw [hbuffer]
    rfl
  refine hf.next hopen hin hout ?_ (fun _ => ?_) ?_ (by rintro deadline ⟨⟩)
  · rw [Connection.dispatched_answer, hpending, ← htotal]
    rfl
  · rw [hpending]
    exact hf.fits hserves
  · show (Phase.answering _ (x.answer true outcome).sequel).drains = false
    rcases x.answer_sequel outcome with h | ⟨reason, h, -⟩ <;> rw [h] <;> rfl

theorem dispatch_faithful (hf : t.Faithful rules capacity stream) {request : Request}
    (hp : t.connection.phase = .dispatching request) :
    { t with connection := t.connection.dispatch rules t.now .running request }.Faithful rules capacity stream := by
  have hopen : t.connection.isClosed = false := by simp [Connection.isClosed, hp]
  simp only [Connection.dispatch, ShutdownState.isTerminated, Bool.false_eq_true, if_false]
  cases hplan : rules.dispatcher.plan request with
  | answer outcome =>
    refine answer_faithful (c := t.connection.note (.dispatched request)) hf hopen rfl rfl rfl (by rw [hp]; rfl) ?_
    rw [hp]
    simp only [Connection.dispatched_note_dispatched, Phase.outlook, ConnectionRules.answer, Dispatcher.dispatch, hplan,
      Conversation.after_after, List.append_nil]
  | run reaction =>
    refine hf.next hopen rfl rfl ?_ (fun _ => hf.fits (by rw [hp]; rfl)) rfl (by rintro deadline ⟨⟩)
    -- whether the handler ends before its deadline is whether it takes less than the limit
    have houtcome : rules.dispatcher.outcomeBy (t.now + rules.dispatcher.limit.millis) (t.now + reaction.delay)
        reaction.completion = rules.dispatcher.dispatch request := by
      simp only [Dispatcher.outcomeBy, Dispatcher.dispatch, hplan, Dispatcher.inTime, Nat.add_lt_add_iff_left,
        decide_eq_true_eq]
    rw [hp]
    show (Conversation.ofAnswer rules _ (Exchange.answer true _ _)).after
      (t.connection.note (.dispatched request)).dispatched [] = _
    rw [houtcome, Connection.dispatched_note_dispatched]
    simp only [Phase.outlook, Conversation.after_after, List.append_nil]
    rfl

theorem awaitHandler_faithful (hf : t.Faithful rules capacity stream) {exchange : Exchange} {deadline ends : Nat}
    {completion : Completion} (hp : t.connection.phase = .handling exchange deadline ends completion) {c : Connection}
    (hstep : t.connection.awaitHandler rules t.now .running exchange deadline ends completion = some c) :
    { t with connection := c }.Faithful rules capacity stream := by
  have hopen : t.connection.isClosed = false := by simp [Connection.isClosed, hp]
  have houtcome : ∀ outcome, rules.dispatcher.outcomeBy deadline ends completion = outcome →
      { t with connection := t.connection.answer .running outcome exchange }.Faithful rules capacity stream := by
    rintro outcome rfl
    refine answer_faithful hf hopen rfl rfl rfl (by rw [hp]; rfl) ?_
    rw [hp]
    rfl
  simp only [Connection.awaitHandler, ShutdownState.isTerminated, Bool.false_eq_true, if_false, Bool.and_eq_true,
    decide_eq_true_eq] at hstep
  split_ifs at hstep with hlate hdone
  · cases hstep
    exact houtcome _ (if_neg (by omega))
  · cases hstep
    exact houtcome _ (if_pos (by omega))

theorem follow_faithful (hf : t.Faithful rules capacity stream) {sequel : Sequel}
    (hp : t.connection.phase = .answering [] sequel) (served : Nat) :
    { t with connection := Connection.follow rules t.now sequel { t.connection with served } }.Faithful
      rules capacity stream := by
  have hopen : t.connection.isClosed = false := by simp [Connection.isClosed, hp]
  cases sequel with
  | goOn =>
    have hbuffer : (Connection.follow rules t.now .goOn { t.connection with served }).buffer = t.connection.buffer :=
      Connection.buffer_move _ _
    refine hf.next hopen (Connection.inbound_move _ _) (Connection.outbound_move _ _) ?_ (fun _ => ?_) rfl
      (by rintro deadline ⟨⟩)
    · rw [hp]
      show (Conversation.ofBytes rules _).after (Connection.move .idle { t.connection with served }).dispatched [] = _
      rw [hbuffer, Connection.dispatched_move]
      rfl
    · rw [hbuffer]
      exact hf.fits (by rw [hp]; rfl)
  | drain => exact absurd hf.stays (by rw [hp]; simp [Phase.drains])
  | close reason => exact hf.finish (by rw [hp]; rfl) rfl rfl

/-- Bytes that are written are the next ones to be written. -/
theorem Faithful.write (hf : t.Faithful rules capacity stream) (hopen : t.connection.isClosed = false) {rest : Bytes}
    {later : Conversation} {phase : Phase} (hbefore : t.connection.phase.outlook rules t.pending = later.after [] rest)
    (hafter : phase.outlook rules t.pending = later.after [] (t.connection.outbound.write rest).1)
    (hserves : phase.serves = t.connection.phase.serves) (hstays : phase.drains = false)
    (hreading : ∀ deadline, phase ≠ .reading deadline) :
    { t with connection := { t.connection with phase, outbound := (t.connection.outbound.write rest).2 } }.Faithful
      rules capacity stream := by
  obtain ⟨h1, h2, h3, h4, h5⟩ := hf.linked hopen
  refine ⟨?_, hf.outWaiting, fun _ => ⟨h1, h2, h3, h4, h5⟩, fun h => hf.fits (hserves ▸ h), hstays,
    fun deadline h => absurd h (hreading deadline)⟩
  have hbytes := t.connection.outbound.write_bytes rest
  show (phase.outlook rules t.pending).after t.connection.dispatched
    (t.received ++ (t.connection.outbound.write rest).2.bytes) = _
  rw [← hf.total, hbefore, hafter, Conversation.after_after, Conversation.after_after, List.append_assoc, hbytes,
    List.append_assoc]

theorem writeAnswer_faithful (hf : t.Faithful rules capacity stream) {rest : Bytes} {sequel : Sequel}
    (hp : t.connection.phase = .answering rest sequel) {c : Connection}
    (hstep : t.connection.writeAnswer rules t.now .running rest sequel = some c) :
    { t with connection := c }.Faithful rules capacity stream := by
  have hopen : t.connection.isClosed = false := by simp [Connection.isClosed, hp]
  simp only [Connection.writeAnswer, ShutdownState.isTerminated, Bool.false_eq_true, if_false,
    (hf.linked hopen).outOpen, List.isEmpty_iff] at hstep
  split_ifs at hstep with hempty hroom
  · cases hstep
    exact follow_faithful hf (by rw [hp, hempty]) _
  · cases hstep
    have hstays := hf.stays
    rw [hp] at hstays
    refine hf.write hopen (by rw [hp]; rfl) rfl (by rw [hp]; rfl) ?_ (by rintro deadline ⟨⟩)
    cases sequel <;> trivial

theorem writeRefusal_faithful (hf : t.Faithful rules capacity stream) {rest : Bytes} {reason : CloseReason}
    (hp : t.connection.phase = .refusing rest reason) {c : Connection}
    (hstep : t.connection.writeRefusal rest reason = some c) :
    { t with connection := c }.Faithful rules capacity stream := by
  have hopen : t.connection.isClosed = false := by simp [Connection.isClosed, hp]
  simp only [Connection.writeRefusal, (hf.linked hopen).outOpen, Bool.or_false, List.isEmpty_iff] at hstep
  split_ifs at hstep with hempty hroom
  · cases hstep
    exact hf.finish (by rw [hp, hempty]; rfl) rfl rfl
  · cases hstep
    exact hf.write hopen (by rw [hp]; rfl) rfl (by rw [hp]; rfl) rfl (by rintro deadline ⟨⟩)

theorem read_faithful (hf : t.Faithful rules capacity stream) {deadline : Nat}
    (hp : t.connection.phase = .reading deadline) :
    { t with connection := t.connection.read.await rules t.now }.Faithful rules capacity stream := by
  have hopen : t.connection.isClosed = false := by simp [Connection.isClosed, hp]
  obtain ⟨h1, h2, h3, h4, h5⟩ := hf.linked hopen
  have hpending : { t with connection := t.connection.read.await rules t.now }.pending = t.pending := by
    simp only [pending, unread, Connection.read, Connection.await, ReadBuffer.bytes_append]
    rw [List.append_assoc, ← List.append_assoc (Pipe.read _ _).1, Pipe.read_contents]
  have hsent : (t.connection.inbound.read t.connection.buffer.room).2.closed = true →
      t.unsent = [] ∧ (t.connection.inbound.read t.connection.buffer.room).2.waiting = [] := by
    intro hc
    rw [Pipe.closed_read] at hc
    exact ⟨(h5 hc).1, Pipe.waiting_read (h5 hc).2 _⟩
  have hsettled := Pipe.settled_read (fun hc => (h5 hc).2) t.connection.buffer.room
  refine ⟨?_, hf.outWaiting, fun _ => ⟨h1, h2, (Pipe.capacity_read _ _).trans h3, hsettled, hsent⟩, fun _ => ?_, rfl,
    by rintro deadline ⟨⟩⟩
  · rw [hpending, ← hf.total, hp]
    rfl
  · rw [hpending]
    exact hf.fits (by rw [hp]; rfl)

theorem awaitBytes_faithful (hf : t.Faithful rules capacity stream) {deadline : Nat}
    (hp : t.connection.phase = .reading deadline) {c : Connection}
    (hstep : t.connection.awaitBytes rules t.now .running deadline = some c) :
    { t with connection := c }.Faithful rules capacity stream ∨ c.phase = .closed .idleTimeout := by
  have hopen : t.connection.isClosed = false := by simp [Connection.isClosed, hp]
  simp only [Connection.awaitBytes, ShutdownState.isRunning, Bool.not_true, Bool.false_eq_true, if_false,
    Bool.not_eq_true', List.isEmpty_eq_false_iff] at hstep
  split_ifs at hstep with hbytes hclosed hlate
  · cases hstep
    exact .inl (read_faithful hf hp)
  · cases hstep
    refine .inl (hf.finish ?_ rfl rfl)
    obtain ⟨hunsent, hwaiting⟩ := (hf.linked hopen).sent hclosed
    have hpending : t.pending = t.connection.buffer.bytes := by
      simp only [pending, unread, Pipe.contents, hunsent, hwaiting, Classical.not_not.1 hbytes, List.append_nil]
    rw [hp, hpending]
    exact Conversation.ofBytes_of_wait (hf.examined deadline hp)
  · cases hstep
    exact .inr rfl

/-- A step keeps to the conversation of the stream unless the peer is given up. -/
theorem step_faithful (hf : t.Faithful rules capacity stream) {c : Connection}
    (hstep : t.connection.step rules t.now .running = some c) :
    { t with connection := c }.Faithful rules capacity stream ∨ c.phase = .closed .idleTimeout := by
  unfold Connection.step at hstep
  cases hp : t.connection.phase with
  | examining deadline => rw [hp] at hstep; cases hstep; exact .inl (examine_faithful hf hp)
  | reading deadline => rw [hp] at hstep; exact awaitBytes_faithful hf hp hstep
  | dispatching request => rw [hp] at hstep; cases hstep; exact .inl (dispatch_faithful hf hp)
  | handling exchange deadline ends completion => rw [hp] at hstep; exact .inl (awaitHandler_faithful hf hp hstep)
  | answering rest sequel => rw [hp] at hstep; exact .inl (writeAnswer_faithful hf hp hstep)
  | refusing rest reason => rw [hp] at hstep; exact .inl (writeRefusal_faithful hf hp hstep)
  | lingering deadline => exact absurd hf.stays (by rw [hp]; simp [Phase.drains])
  | closed reason => rw [hp] at hstep; cases hstep

/-! ## What the peer does, and time -/

/-- What leaves the connection and the bytes on their way as they are keeps to the conversation. -/
theorem Faithful.keep (hf : t.Faithful rules capacity stream) {u : Transmission}
    (hphase : u.connection.phase = t.connection.phase) (hd : u.connection.dispatched = t.connection.dispatched)
    (hbuffer : u.connection.buffer.bytes = t.connection.buffer.bytes)
    (hunread : t.connection.isClosed = false → u.unread = t.unread)
    (hwritten : u.received ++ u.connection.outbound.bytes = t.received ++ t.connection.outbound.bytes)
    (hwaiting : u.connection.outbound.waiting = []) (hlinked : t.Linked capacity → u.Linked capacity) :
    u.Faithful rules capacity stream := by
  have hclosed : u.connection.isClosed = t.connection.isClosed := by simp only [Connection.isClosed, hphase]
  have hpending : t.connection.isClosed = false → u.pending = t.pending := by
    intro hopen
    rw [pending, pending, hbuffer, hunread hopen]
  refine ⟨?_, hwaiting, fun hopen => ?_, fun hserves => ?_, ?_, fun deadline hreading => ?_⟩
  · rw [← hf.total, hwritten, hd, hphase]
    cases hopen : t.connection.isClosed with
    | false => rw [hpending hopen]
    | true =>
      -- what an ended connection leads to does not depend on any bytes
      cases hp : t.connection.phase with
      | closed reason => rfl
      | _ => simp [Connection.isClosed, hp] at hopen
  · exact hlinked (hf.linked (hclosed ▸ hopen))
  · rw [hphase] at hserves
    have hopen : t.connection.isClosed = false := by
      cases hp : t.connection.phase with
      | closed reason => rw [hp] at hserves; cases hserves
      | _ => simp [Connection.isClosed, hp]
    rw [hpending hopen]
    exact hf.fits hserves
  · rw [hphase]; exact hf.stays
  · rw [hphase] at hreading
    rw [hbuffer]
    exact hf.examined deadline hreading

theorem send_faithful (hf : t.Faithful rules capacity stream) {piece rest : Bytes} (hne : piece ≠ [])
    (h : t.unsent = piece ++ rest) :
    { t with connection := { t.connection with inbound := t.connection.inbound.send piece }, unsent := rest }.Faithful
      rules capacity stream := by
  have hclosed : t.Linked capacity → t.connection.inbound.closed = false := by
    intro hlinked
    cases hc : t.connection.inbound.closed with
    | false => rfl
    | true => exact absurd (hlinked.sent hc).1 (by simp [h, hne])
  refine hf.keep rfl rfl rfl (fun hopen => ?_) rfl hf.outWaiting (fun hlinked => ?_)
  · show (Pipe.send _ _).contents ++ rest = _
    rw [Pipe.contents_send (hclosed (hf.linked hopen)), unread, h, List.append_assoc]
  · have hc := hclosed hlinked
    have hsend := Pipe.send_of_open hc piece
    refine ⟨hlinked.outOpen, hlinked.outCapacity, ?_, Pipe.settled_send hc piece, fun h => ?_⟩
    · show (Pipe.send _ _).capacity = _
      rw [hsend, Pipe.capacity_refill]
      exact hlinked.inCapacity
    · have h : (t.connection.inbound.send piece).closed = true := h
      rw [hsend, Pipe.closed_refill] at h
      exact absurd h (by simp [hc])

theorem close_faithful (hf : t.Faithful rules capacity stream) (h : t.unsent = [])
    (hw : t.connection.inbound.waiting = []) :
    { t with connection := { t.connection with inbound := t.connection.inbound.close } }.Faithful
      rules capacity stream :=
  hf.keep rfl rfl rfl (fun _ => rfl) rfl hf.outWaiting fun hlinked =>
    ⟨hlinked.outOpen, hlinked.outCapacity, hlinked.inCapacity, .inl hw, fun _ => ⟨h, hw⟩⟩

theorem receive_faithful (hf : t.Faithful rules capacity stream) (most : Nat) :
    { t with
      connection := { t.connection with outbound := (t.connection.outbound.read most).2 }
      received := t.received ++ (t.connection.outbound.read most).1 }.Faithful rules capacity stream := by
  have hwaiting := Pipe.waiting_read hf.outWaiting most
  refine hf.keep rfl rfl rfl (fun _ => rfl) ?_ hwaiting fun hlinked =>
    ⟨(Pipe.closed_read _ _).trans hlinked.outOpen, (Pipe.capacity_read _ _).trans hlinked.outCapacity,
      hlinked.inCapacity, hlinked.inSettled, hlinked.sent⟩
  have hread := t.connection.outbound.read_contents most
  simp only [Pipe.contents, hwaiting, hf.outWaiting, List.append_nil] at hread
  show (t.received ++ (t.connection.outbound.read most).1) ++ (t.connection.outbound.read most).2.bytes = _
  rw [List.append_assoc, hread]

/-- A move keeps to the conversation of the stream unless the peer is given up by it. -/
theorem Move.faithful {u : Transmission} {reads : List Bytes} (h : Move rules t reads u)
    (hf : t.Faithful rules capacity stream) :
    u.Faithful rules capacity stream ∨ u.connection.phase = .closed .idleTimeout := by
  cases h with
  | step h => exact step_faithful hf h
  | send hne h => exact .inl (send_faithful hf hne h)
  | close h hw => exact .inl (close_faithful hf h hw)
  | receive most => exact .inl (receive_faithful hf most)
  | pass ms =>
    exact .inl (hf.keep rfl rfl rfl (fun _ => rfl) rfl hf.outWaiting fun h => ⟨h.1, h.2, h.3, h.4, h.5⟩)
  | reserve capacity gap =>
    exact .inl (hf.keep rfl rfl rfl (fun _ => rfl) rfl hf.outWaiting fun h => ⟨h.1, h.2, h.3, h.4, h.5⟩)

/-- An ended connection stays as it is. -/
theorem Move.phase_of_closed {u : Transmission} {reads : List Bytes} (h : Move rules t reads u) {reason : CloseReason}
    (hp : t.connection.phase = .closed reason) : u.connection.phase = .closed reason := by
  cases h with
  | step h =>
    unfold Connection.step at h
    rw [hp] at h
    cases h
  | _ => exact hp

/-- A whole run keeps to the conversation of the stream unless the peer is given up in it. -/
theorem Run.faithful {u : Transmission} {reads : List Bytes} (h : Run rules t reads u)
    (hf : t.Faithful rules capacity stream) :
    u.Faithful rules capacity stream ∨ u.connection.phase = .closed .idleTimeout := by
  induction h with
  | refl => exact .inl hf
  | move _ next ih =>
    rcases ih with ih | ih
    · exact next.faithful ih
    · exact .inr (next.phase_of_closed ih)

/-- An ended connection has had the conversation of the stream. -/
theorem Faithful.conversation (hf : t.Faithful rules capacity stream) {reason : CloseReason}
    (hp : t.connection.phase = .closed reason) : t.conversation? = some (.ofBytes rules stream) := by
  have htotal := hf.total
  rw [hp] at htotal
  rw [conversation?, hp, ← htotal]
  simp [Phase.outlook, Conversation.after, Conversation.ended]

end Transmission

end Hypertext
