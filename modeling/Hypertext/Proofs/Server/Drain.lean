/-
Draining: what a connection does once it has seen that a shutdown has begun. No request that is read after that is
dispatched. A connection that ends because of the shutdown has answered all requests that it has dispatched, and if it
has read any byte beyond them, it has refused what it has read with one response, whatever it is the beginning of.
-/
import Hypertext.Proofs.Server.Operation
import Hypertext.Proofs.Server.Record

namespace Hypertext

namespace Connection

/-- The requests that have been read: those that have been dispatched and the one that is to be dispatched next. -/
def parsed (c : Connection) : List Request :=
  match c.phase with
  | .dispatching request => c.dispatched ++ [request]
  | _ => c.dispatched

/-- A step looks at the state of the shutdown: before a request is awaited, when one has come to an outcome, and whenever
the connection works once the shutdown has ended. -/
def Looks (status : ShutdownState) (before after : Connection) : Prop :=
  (∃ deadline, before.phase = .examining deadline ∨ before.phase = .reading deadline) ∨
    before.samples status after ≠ [] ∨ before.phase.works = true ∧ status.isTerminated = true

/-- Whether a step is a write that fails: the connection ends with bytes that it was about to write. -/
def breaks (before after : Connection) : Bool :=
  match before.phase, after.phase with
  | .answering (_ :: _) _, .closed .io | .refusing (_ :: _) _, .closed _ => true
  | _, _ => false

end Connection

namespace Lifetime

/-- The bytes that the connection has read: all that have been sent but those that are still on their way. -/
def read (t : Lifetime) : Bytes := t.sent.take (t.sent.length - t.connection.inbound.contents.length)

/-- The connection sees in a step that a shutdown has begun. -/
inductive Notices (rules : ConnectionRules) (t : Lifetime) : Lifetime → Prop
  | step {c : Connection} (table : Table) (h : t.connection.step (rules.withTable table) t.now t.shutdown = some c)
      (stops : t.shutdown.isRunning = false) (looks : t.connection.Looks t.shutdown c) :
      Notices rules t (t.stepped (rules.withTable table).dispatcher c)

/-- Moves, reads that fail and writes that fail, one after another, and whether a write has failed. -/
inductive Course (rules : ConnectionRules) (t : Lifetime) : Bool → Lifetime → Prop
  | refl : Course rules t false t
  | move {broken : Bool} {u v : Lifetime} (course : Course rules t broken u) (next : Move rules u v) :
      Course rules t (broken || u.connection.breaks v.connection) v
  | failRead {broken : Bool} {u : Lifetime} {c : Connection} (course : Course rules t broken u)
      (h : u.connection.failRead u.shutdown = some c) : Course rules t broken { u with connection := c }
  | failWrite {broken : Bool} {u : Lifetime} {c : Connection} (course : Course rules t broken u)
      (h : u.connection.failWrite u.shutdown = some c) : Course rules t true { u with connection := c }

end Lifetime

/-! ## No request is taken any more -/

/-- Whether a connection is about to end: it takes leave, refuses, has ended, or will do so after an answer. -/
def Phase.Closing : Phase → Prop
  | .answering _ sequel => sequel ≠ .goOn
  | .lingering _ | .refusing .. | .closed _ => True
  | _ => False

namespace Connection

variable {c after : Connection} {rules : ConnectionRules} {now : Nat} {status : ShutdownState}

theorem closing_answer (hstops : status.isRunning = false) (c : Connection) (outcome : Except DispatchError Response)
    (x : Exchange) : (c.answer status outcome x).phase.Closing := by
  show (x.answer status.isRunning outcome).sequel ≠ .goOn
  rw [Ne, Exchange.answer_goOn_iff]
  simp [Exchange.keeps, hstops]

theorem dispatched_leave (c : Connection) : c.leave.dispatched = c.dispatched := by
  unfold leave
  split
  · exact dispatched_finish c _
  · exact dispatched_refuse c _ _ _

theorem closing_leave (c : Connection) : c.leave.phase.Closing := by
  unfold leave
  split <;> trivial

/-- A connection that is about to end dispatches nothing. -/
theorem closing_step (h : c.phase.Closing) (hstep : c.step rules now status = some after) :
    after.phase.Closing ∧ after.dispatched = c.dispatched := by
  cases step_advance hstep with
  | drain hp =>
    rcases hp with hp | hp
    all_goals
      rw [hp] at h
      cases h
  | wait hp => rw [hp] at h; cases h
  | take hp => rw [hp] at h; cases h
  | refuse hp => rw [hp] at h; cases h
  | read hp => rw [hp] at h; cases h
  | giveUp hp => rw [hp] at h; cases h
  | answer hp => rw [hp] at h; cases h
  | begin hp => rw [hp] at h; cases h
  | conclude hp => rw [hp] at h; cases h
  | force => exact ⟨trivial, dispatched_finish c _⟩
  | @follow sequel hp =>
    rw [hp] at h
    cases sequel with
    | goOn => exact absurd rfl h
    | drain => exact ⟨trivial, dispatched_move _ _⟩
    | close reason => exact ⟨trivial, dispatched_finish _ _⟩
  | breakOff => exact ⟨trivial, dispatched_finish c _⟩
  | write hp =>
    rw [hp] at h
    exact ⟨h, rfl⟩
  | dismiss => exact ⟨trivial, dispatched_finish c _⟩
  | writeRefusal => exact ⟨trivial, rfl⟩
  | linger hp => exact ⟨h, rfl⟩
  | leave => exact ⟨trivial, dispatched_finish c _⟩
  | turnAway => exact ⟨trivial, dispatched_refuse c _ _ _⟩

theorem closing_failRead (h : c.phase.Closing) (hfail : c.failRead status = some after) :
    after.phase.Closing ∧ after.dispatched = c.dispatched := by
  unfold failRead at hfail
  split at hfail
  · next hp =>
    rw [hp] at h
    cases h
  · cases hfail
    exact ⟨closing_leave c, dispatched_leave c⟩
  · cases hfail

/-- A write that fails ends the connection. -/
theorem closing_failWrite (hfail : c.failWrite status = some after) :
    after.phase.Closing ∧ after.dispatched = c.dispatched := by
  unfold failWrite at hfail
  split at hfail
  · split at hfail
    · cases hfail
    · cases hfail
      exact ⟨trivial, dispatched_finish c _⟩
  · cases hfail
    exact ⟨trivial, dispatched_finish c _⟩
  · cases hfail

theorem dispatched_prefix_parsed (c : Connection) : c.dispatched <+: c.parsed := by
  unfold parsed
  split
  · exact List.prefix_append _ _
  · exact List.prefix_refl _

/-- A connection that has seen a shutdown is about to end, and has dispatched what it had read. -/
theorem closing_of_looks (hstep : c.step rules now status = some after) (hstops : status.isRunning = false)
    (hlooks : c.Looks status after) : after.phase.Closing ∧ after.dispatched <+: c.parsed := by
  cases step_advance hstep with
  | drain hp =>
    refine ⟨trivial, ?_⟩
    show (c.move .draining).dispatched <+: _
    rw [dispatched_move]
    exact dispatched_prefix_parsed c
  | wait _ hs | take _ hs | refuse _ hs | read _ hs | giveUp _ hs =>
    rw [hs] at hstops
    cases hstops
  | force =>
    refine ⟨trivial, ?_⟩
    rw [dispatched_finish]
    exact dispatched_prefix_parsed c
  | @answer request outcome hp =>
    obtain ⟨hdispatched, -⟩ := answer_adds (c.note (.dispatched request)) status outcome
      (.ofRequest rules.compress rules.encode request)
    have hparsed : c.parsed = c.dispatched ++ [request] := by rw [parsed, hp]
    have hall : _ = c.parsed := hdispatched.trans ((dispatched_note_dispatched c request).trans hparsed.symm)
    exact ⟨closing_answer hstops _ _ _, hall ▸ List.prefix_refl _⟩
  | @conclude exchange deadline ends completion hp =>
    obtain ⟨hdispatched, -⟩ := c.answer_adds status (rules.dispatcher.outcomeBy deadline ends completion) exchange
    refine ⟨closing_answer hstops _ _ _, ?_⟩
    rw [hdispatched]
    exact dispatched_prefix_parsed c
  -- a step that begins a handler or writes an answer does not look at the shutdown unless that has ended
  | begin hp hs | follow hp hs | write hp _ hs | breakOff hp _ _ hs => simp [Looks, samples, hp, hs] at hlooks
  | dismiss hp | writeRefusal hp | linger hp | leave hp | turnAway hp =>
    have hclosing : c.phase.Closing := by
      rw [hp]
      trivial
    obtain ⟨hafter, hdispatched⟩ := closing_step hclosing hstep
    rw [hdispatched]
    exact ⟨hafter, dispatched_prefix_parsed c⟩

end Connection

namespace Lifetime

variable {rules : ConnectionRules} {t u v : Lifetime} {c : Connection} {broken : Bool}

theorem Move.closing (h : Move rules u v) (hu : u.connection.phase.Closing) :
    v.connection.phase.Closing ∧ v.connection.dispatched = u.connection.dispatched := by
  cases h with
  | step table hstep => exact Connection.closing_step hu hstep
  | _ => exact ⟨hu, rfl⟩

theorem Course.closing (h : Course rules u broken v) (hu : u.connection.phase.Closing) :
    v.connection.phase.Closing ∧ v.connection.dispatched = u.connection.dispatched := by
  induction h with
  | refl => exact ⟨hu, rfl⟩
  | move _ next ih =>
    obtain ⟨hclosing, hdispatched⟩ := next.closing ih.1
    exact ⟨hclosing, hdispatched.trans ih.2⟩
  | failRead _ hfail ih =>
    obtain ⟨hclosing, hdispatched⟩ := Connection.closing_failRead ih.1 hfail
    exact ⟨hclosing, hdispatched.trans ih.2⟩
  | failWrite _ hfail ih =>
    obtain ⟨hclosing, hdispatched⟩ := Connection.closing_failWrite hfail
    exact ⟨hclosing, hdispatched.trans ih.2⟩

/-- Once it has seen a shutdown a connection dispatches no request that it had not read before. -/
theorem Notices.dispatched (h : Notices rules t u) (hcourse : Course rules u broken v) :
    v.connection.dispatched <+: t.connection.parsed := by
  cases h with
  | step table hstep stops looks =>
    obtain ⟨hclosing, hdispatched⟩ := Connection.closing_of_looks hstep stops looks
    rw [(hcourse.closing hclosing).2]
    exact hdispatched

/-! ## What is left is refused -/

/-- A connection takes leave: it has dispatched the first requests of what its peer has sent, and refuses what it has
read beyond them. -/
structure Leaves (beyond : Bytes) (t : Lifetime) : Prop where
  opens : ∃ taken, Request.Opens t.sent taken (beyond ++ t.connection.inbound.contents) ∧
    taken.map (·.request) = t.connection.dispatched
  refused : t.connection.refused = if beyond = [] then [] else [drainRefusal]

/-- What holds of a connection that refuses because of a shutdown, or has ended because of it. -/
def Settled (rules : ConnectionRules) (t : Lifetime) : Phase → Prop
  | .refusing _ .drained => ∃ beyond, beyond ≠ [] ∧ t.Leaves beyond
  | .closed .drained => ∃ beyond, t.Leaves beyond ∧ t.ledger.sampled.length = t.ledger.calls.length ∧
      t.ledger.written = bytesOf (t.ledger.answers rules) ++ t.ledger.refused.flatten
  | _ => True

theorem settled_of_reason {phase : Phase} (h : phase.reason? ≠ some .drained) : t.Settled rules phase := by
  unfold Settled
  split
  · exact absurd rfl h
  · exact absurd rfl h
  · trivial

/-- What happens around a connection leaves settled what is settled. -/
theorem Settled.keep {phase : Phase} (h : t.Settled rules phase)
    (hleaves : ∀ beyond, t.Leaves beyond → u.Leaves beyond) (hledger : u.ledger = t.ledger) :
    u.Settled rules phase := by
  unfold Settled at h ⊢
  rw [hledger]
  split at h
  · obtain ⟨beyond, hne, hleave⟩ := h
    exact ⟨beyond, hne, hleaves beyond hleave⟩
  · obtain ⟨beyond, hleave, hwritten⟩ := h
    exact ⟨beyond, hleaves beyond hleave, hwritten⟩
  · trivial

/-- The ledger is in order, so is what has been taken, and what the connection has read beyond it is refused if the
connection ends because of a shutdown. -/
structure Followed (rules : ConnectionRules) (t : Lifetime) : Prop extends t.Orderly rules where
  taking : ∃ taken later, t.Taking rules taken later
  settled : t.Settled rules t.connection.phase

theorem followed_start (rules : ConnectionRules) (id : ConnectionId) (capacity now : Nat) :
    (start rules id capacity now).Followed rules where
  toOrderly := orderly_start id capacity now
  taking := ⟨_, _, taking_start id capacity now⟩
  settled := trivial

theorem stepped_of_quiet {dispatcher : Dispatcher} (h : t.connection.Quiet c) :
    t.stepped dispatcher c = { t with connection := c } := by
  obtain ⟨hcalls, hsamples⟩ := h dispatcher t.shutdown
  rw [stepped, hcalls, hsamples, List.append_nil, List.append_nil]

/-- A connection that has nothing to write ends because of a shutdown. -/
theorem settled_finish {beyond : Bytes} (h : t.Leaves beyond) (htally : t.ledger.Tally rules 0 0 []) :
    { t with connection := t.connection.finish .drained }.Settled rules (.closed .drained) := by
  obtain ⟨⟨taken, hopens, hrequests⟩, hrefused⟩ := h
  obtain ⟨hdispatched, -, -, hrefuse, -, -⟩ := Connection.sameAccount_finish t.connection .drained
  have htotal := htally.total
  rw [List.append_nil] at htotal
  refine ⟨beyond, ⟨⟨taken, hopens, hrequests.trans hdispatched.symm⟩, hrefuse.trans hrefused⟩, htally.sampled, ?_⟩
  show t.ledger.written = bytesOf (t.ledger.answers rules) ++ (t.connection.finish .drained).refused.flatten
  rw [hrefuse]
  exact htotal

/-- A connection that takes leave has nothing left that it has read, or refuses that. -/
theorem settled_leave {taken : List Portion}
    (hopens : Request.Opens t.sent taken (t.connection.buffer.bytes ++ t.connection.inbound.contents))
    (hrequests : taken.map (·.request) = t.connection.dispatched) (hrefused : t.connection.refused = [])
    (htally : t.ledger.Tally rules 0 0 []) :
    { t with connection := t.connection.leave }.Settled rules t.connection.leave.phase := by
  unfold Connection.leave
  split
  · next hempty =>
    rw [List.isEmpty_iff.1 hempty] at hopens
    exact settled_finish ⟨⟨taken, hopens, hrequests⟩, hrefused⟩ htally
  · next hmore =>
    have hmore : t.connection.buffer.bytes ≠ [] := mt List.isEmpty_iff.2 hmore
    refine ⟨_, hmore, ⟨taken, hopens, ?_⟩, ?_⟩
    · show _ = Connection.dispatched _
      rw [Connection.dispatched_refuse]
      exact hrequests
    · show (t.connection.note _).refused = _
      rw [Connection.refused_note_refused, hrefused, if_neg hmore]
      rfl

/-- A connection that takes leave ends, or refuses what it has read. -/
theorem Followed.leave (h : t.Followed rules) {deadline : Nat} (hp : t.connection.phase = .lingering deadline) :
    { t with connection := t.connection.leave }.Followed rules := by
  obtain ⟨taken, later, ht⟩ := h.taking
  have hstands := h.stands
  have hrequests : taken.map (·.request) = t.connection.dispatched := by
    have hrequests := ht.requests
    rw [hp] at hrequests
    exact hrequests
  rw [hp] at hstands
  obtain ⟨htally, hrefused, -⟩ := hstands
  have hstops : t.shutdown.isRunning = false := by
    rw [← Bool.not_eq_true]
    intro hruns
    have hdrains := (ht.calm hruns).1
    rw [hp] at hdrains
    cases hdrains
  have hstepped : t.stepped rules.dispatcher t.connection.leave = { t with connection := t.connection.leave } :=
    stepped_of_quiet (Connection.quiet_leave t.connection t.connection)
  rw [← hstepped]
  constructor
  case toOrderly => exact h.toOrderly.leave rules.dispatcher hp
  case taking =>
    refine ⟨taken, later, ?_⟩
    unfold Connection.leave
    split
    · exact ht.finish hrequests (fun he => he.elim nofun nofun) nofun nofun (by simp [hstops])
    · exact ht.refuse hrequests hrefused (.inr (.inr ⟨rfl, hstops⟩))
  case settled =>
    rw [hstepped]
    have hopens := ht.opens
    rw [← ht.unread hrefused] at hopens
    exact settled_leave hopens hrequests hrefused htally

/-- A refusal because of a shutdown has been written, and the connection ends. -/
theorem settled_dismiss (ho : t.Orderly rules) (h : t.Settled rules t.connection.phase) {reason : CloseReason}
    (hp : t.connection.phase = .refusing [] reason) :
    { t with connection := t.connection.finish reason }.Settled rules (.closed reason) := by
  have hstands := ho.stands
  rw [hp] at hstands h
  obtain ⟨htally, -, -⟩ := hstands
  by_cases hreason : reason = .drained
  · subst hreason
    obtain ⟨beyond, -, hleaves⟩ := h
    exact settled_finish hleaves htally
  · exact settled_of_reason fun he => hreason (Option.some.inj he)

/-- What a connection refuses because of a shutdown is not changed by writing it. -/
theorem settled_write {rest : Bytes} {reason : CloseReason} (h : t.Settled rules (.refusing rest reason))
    (rest' : Bytes) (outbound : Pipe) :
    { t with connection := { t.connection with phase := .refusing rest' reason, outbound } }.Settled rules
      (.refusing rest' reason) := by
  by_cases hreason : reason = .drained
  · subst hreason
    obtain ⟨beyond, hne, hleaves⟩ := h
    exact ⟨beyond, hne, hleaves.opens, hleaves.refused⟩
  · exact settled_of_reason fun he => hreason (Option.some.inj he)

/-- A step other than a write that fails comes to an end because of a shutdown only after it has refused what is left. -/
theorem Followed.settled_step (h : t.Followed rules) {table : Table}
    (hstep : t.connection.step (rules.withTable table) t.now t.shutdown = some c)
    (hwhole : t.connection.breaks c = false) :
    (t.stepped (rules.withTable table).dispatcher c).Settled rules c.phase := by
  have hsettled := h.settled
  cases Connection.step_advance hstep with
  | drain | wait | read | begin | answer | conclude | write | force | breakOff => exact settled_of_reason nofun
  | take =>
    rw [Connection.phase_move]
    exact settled_of_reason nofun
  | refuse hp hs found =>
    refine settled_of_reason fun he => ?_
    rcases Admission.refuse_cases found with hcase | hcase
    all_goals
      rw [found] at hcase
      cases hcase
      cases he
  | giveUp hp hs found why =>
    refine settled_of_reason fun he => ?_
    rcases why with rfl | rfl
    all_goals cases he
  | @follow sequel hp =>
    refine settled_of_reason fun he => ?_
    cases sequel with
    | goOn => cases he
    | drain => cases he
    | close reason =>
      rcases h.toOrderly.close_cases hp with rfl | rfl | rfl
      all_goals cases he
  | @dismiss rest reason hp =>
    cases rest with
    | nil =>
      rw [stepped_of_quiet (Connection.quiet_of_works rfl)]
      exact settled_dismiss h.toOrderly hsettled hp
    | cons b bs => simp [Connection.breaks, hp, Connection.finish] at hwhole
  | writeRefusal hp =>
    rw [hp] at hsettled
    rw [stepped_of_quiet (Connection.quiet_of_works rfl)]
    exact settled_write hsettled _ _
  | linger hp =>
    have hphase : t.connection.read.phase = t.connection.phase := rfl
    rw [hphase, hp]
    exact settled_of_reason nofun
  | leave hp found =>
    have hleave := (h.leave hp).settled
    rw [Connection.leave, if_pos (List.isEmpty_iff.2 found)] at hleave
    rw [stepped_of_quiet (Connection.quiet_of_works rfl)]
    exact hleave
  | turnAway hp found =>
    have hleave := (h.leave hp).settled
    rw [Connection.leave, if_neg (mt List.isEmpty_iff.1 found)] at hleave
    rw [stepped_of_quiet (Connection.quiet_of_works rfl)]
    exact hleave

/-- What happens without a write that fails keeps to it. -/
theorem Followed.move (h : t.Followed rules) (hm : Move rules t u)
    (hwhole : t.connection.breaks u.connection = false) : u.Followed rules := by
  have ho := h.toOrderly
  obtain ⟨taken, later, ht⟩ := h.taking
  have hsettled := h.settled
  refine ⟨ho.move hm, ht.move ho hm, ?_⟩
  cases hm with
  | step table hstep => exact h.settled_step hstep hwhole
  | send piece hopen =>
    refine hsettled.keep ?_ rfl
    rintro beyond ⟨⟨taken, hopens, hrequests⟩, hrefused⟩
    refine ⟨⟨taken, ?_, hrequests⟩, hrefused⟩
    show Request.Opens _ _ (beyond ++ (Pipe.send _ _).contents)
    rw [Pipe.contents_send hopen, ← List.append_assoc]
    exact hopens.append piece
  | receive most => exact hsettled.keep (fun _ h => ⟨h.opens, h.refused⟩) (ho.toSound.ledger_receive most)
  | _ => exact hsettled.keep (fun _ h => ⟨h.opens, h.refused⟩) rfl

/-- A read that fails ends the connection while it waits, or lets it take leave. -/
theorem Followed.failRead (h : t.Followed rules) (hfail : t.connection.failRead t.shutdown = some c) :
    c.phase = .closed .io ∨ { t with connection := c }.Followed rules := by
  unfold Connection.failRead at hfail
  split at hfail
  · split at hfail
    · cases hfail
      exact .inl rfl
    · cases hfail
  · next hp =>
    cases hfail
    exact .inr (h.leave hp)
  · cases hfail

/-- Whatever happens: a write has failed, or a read while a request was awaited, or all is in order. -/
theorem Course.followed (h : Course rules t broken u) (ht : t.Followed rules) :
    broken = true ∨ u.connection.phase = .closed .io ∨ u.Followed rules := by
  induction h with
  | refl => exact .inr (.inr ht)
  | @move broken u v _ next ih =>
    rcases ih with rfl | hp | hu
    · exact .inl rfl
    · exact .inr (.inl (Operation.closed_move next hp))
    · cases hbreaks : u.connection.breaks v.connection with
      | true => exact .inl (Bool.or_true _)
      | false => exact .inr (.inr (hu.move next hbreaks))
  | failRead _ hfail ih =>
    refine ih.imp_right ?_
    rintro (hp | hu)
    · rw [Connection.failRead, hp] at hfail
      cases hfail
    · exact hu.failRead hfail
  | failWrite => exact .inl rfl

/-- What has been read is what has been taken and what lies beyond it. -/
theorem read_eq {taken : List Portion} {beyond : Bytes}
    (h : Request.Opens t.sent taken (beyond ++ t.connection.inbound.contents)) :
    t.read = taken.flatMap (·.bytes) ++ beyond := by
  have hsent := h.stream_eq
  rw [← List.append_assoc] at hsent
  rw [read, hsent, List.length_append, Nat.add_sub_cancel, List.take_left]

/-! ## Main result -/

/-- The refusal is one response, which closes the connection. -/
theorem drainRefusal_bytes : ∃ (lines : List (String × String)) (body : Bytes),
    drainRefusal = Head.statusLine .serviceUnavailable ++ (lines.flatMap Head.lineOf ++ Bytes.crlf) ++ body ∧
      Headers.getAll "connection" ⟨lines⟩ = ["close"] := by
  let r : Response := { Response.ofError .serviceUnavailable Connection.closingMessage with keepAlive := false }
  refine ⟨r.lines, r.sentBody, ?_, r.getAll_connection⟩
  rw [drainRefusal, Exchange.refusal, Response.encode, Response.ofText_head]
  rfl

/-- Whatever the peer does, however handlers end, whenever a shutdown begins, and be it that reads and writes fail: once
the connection has seen that a shutdown has begun it dispatches no request that it had not read before. If it ends
because of the shutdown, and no write has failed, it has written the answers to all requests that it has dispatched, in
order, and then one response that refuses what it has read beyond them, or nothing if it has read nothing beyond them. -/
theorem drained_of_course {id : ConnectionId} {capacity now : Nat}
    (h : Course rules (start rules id capacity now) broken t) :
    (∀ u v later, Notices rules t u → Course rules u later v →
      v.connection.dispatched <+: t.connection.parsed) ∧
    (t.connection.phase = .closed .drained → broken = false → ∃ taken beyond,
      Request.Opens t.sent taken (beyond ++ t.connection.inbound.contents) ∧
      t.read = taken.flatMap (·.bytes) ++ beyond ∧
      t.connection.dispatched = taken.map (·.request) ∧ t.calls.map (·.request) = t.connection.dispatched ∧
      (t.answers rules).length = t.connection.dispatched.length ∧
      t.written = bytesOf (t.answers rules) ++ if beyond = [] then [] else drainRefusal) ∧
    ∃ (lines : List (String × String)) (body : Bytes),
      drainRefusal = Head.statusLine .serviceUnavailable ++ (lines.flatMap Head.lineOf ++ Bytes.crlf) ++ body ∧
        Headers.getAll "connection" ⟨lines⟩ = ["close"] := by
  refine ⟨fun u v later hnotices hcourse => hnotices.dispatched hcourse, ?_, drainRefusal_bytes⟩
  intro hp hwhole
  have ht : t.Followed rules := by
    rcases h.followed (followed_start rules id capacity now) with hbroken | hio | ht
    · rw [hwhole] at hbroken
      cases hbroken
    · rw [hp] at hio
      cases hio
    · exact ht
  have hsettled := ht.settled
  rw [hp] at hsettled
  obtain ⟨beyond, ⟨⟨taken, hopens, hrequests⟩, hrefused⟩, hsampled, hwritten⟩ := hsettled
  have hlength : (t.answers rules).length = t.sampled.length := Ledger.length_answers (Nat.le_of_eq hsampled)
  have hsampled : t.sampled.length = t.calls.length := hsampled
  refine ⟨taken, beyond, hopens, read_eq hopens, hrequests.symm, ht.calls, ?_, ?_⟩
  · rw [hlength, hsampled, ← ht.calls, List.length_map]
  · have hwritten : t.written = bytesOf (t.answers rules) ++ t.connection.refused.flatten := hwritten
    rw [hwritten, hrefused]
    split <;> simp

theorem Course.whole (h : Course rules t false u) (hm : Move rules u v)
    (hwhole : u.connection.breaks v.connection = false) : Course rules t false v := by
  have hcourse := h.move hm
  rw [hwhole] at hcourse
  exact hcourse

/-- Half a request that has come when the shutdown begins is refused. -/
theorem drained_of_half_request :
    let rules : ConnectionRules := ⟨⟨.empty, ⟨0⟩⟩, 10, 16, false, Gzip.gzip⟩
    ∃ t, Course rules (start rules ⟨1⟩ 1024 0) false t ∧ t.connection.phase = .closed .drained ∧
      t.read = Bytes.ofText "GET /" ∧ t.connection.dispatched = [] ∧ t.written = drainRefusal := by
  intro rules
  let b := Bytes.ofText "GET /"
  let c₁ : Connection := { Connection.accept ⟨1⟩ 1024 0 rules with inbound := ⟨1024, b, [], false⟩ }
  let c₂ := (c₁.drain 0).read
  let c₃ := Connection.leave { c₂ with inbound := c₂.inbound.close }
  let c₄ : Connection := { c₃ with phase := .refusing [] .drained, outbound := (c₃.outbound.write drainRefusal).2 }
  let c₅ := c₄.finish .drained
  let t (c : Connection) : Lifetime := ⟨c, 0, .draining 100, b, [], [], [], false⟩
  have hstep {c d : Connection} (h : c.step rules 0 (.draining 100) = some d) (hquiet : c.Quiet d) :
      Move rules (t c) (t d) := by
    have hmove : Move rules (t c) ((t c).stepped rules.dispatcher d) := .step .empty h
    rw [stepped_of_quiet hquiet] at hmove
    exact hmove
  have hbegun : Course rules (start rules ⟨1⟩ 1024 0) false (t c₁) :=
    (Course.refl.whole (.send b rfl) rfl).whole (.shutDown (.draining 100) nofun nofun nofun) rfl
  have hdrains : Course rules (start rules ⟨1⟩ 1024 0) false (t (c₁.drain 0)) :=
    hbegun.whole (hstep rfl (Connection.quiet_of_works rfl)) rfl
  have hread : Course rules (start rules ⟨1⟩ 1024 0) false (t c₂) :=
    hdrains.whole (hstep rfl (Connection.quiet_of_works rfl)) rfl
  have hleaves : Course rules (start rules ⟨1⟩ 1024 0) false (t c₃) :=
    (hread.whole .endSending rfl).whole (hstep rfl (Connection.quiet_leave _ _)) rfl
  have hrefuses : c₃.step rules 0 (.draining 100) = some c₄ := by
    have hrest : (c₃.outbound.write drainRefusal).1 = [] := by decide
    show c₃.writeRefusal drainRefusal .drained = some c₄
    rw [Connection.writeRefusal, if_neg (by decide), if_neg (by decide)]
    show some { c₃ with phase := .refusing (c₃.outbound.write drainRefusal).1 .drained, outbound := _ } = some c₄
    rw [hrest]
    rfl
  have hcourse : Course rules (start rules ⟨1⟩ 1024 0) false (t c₅) :=
    (hleaves.whole (hstep hrefuses (Connection.quiet_of_works rfl)) rfl).whole
      (hstep rfl (Connection.quiet_of_works rfl)) rfl
  obtain ⟨-, hend, -⟩ := drained_of_course hcourse
  obtain ⟨taken, beyond, -, hbeyond, hrequests, hcalls, -, hwritten⟩ := hend rfl rfl
  rw [← hcalls] at hrequests
  obtain rfl : taken = [] := List.map_eq_nil_iff.1 hrequests.symm
  have hb : beyond ≠ [] := by
    rw [← show (t c₅).read = beyond from hbeyond]
    decide
  rw [if_neg hb] at hwritten
  exact ⟨t c₅, hcourse, rfl, by decide, hcalls.symm, hwritten⟩

end Lifetime

end Hypertext
