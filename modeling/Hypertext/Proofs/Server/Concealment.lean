/-
Concealment: why a handler has failed inside the server is not told to its peer. Two runs of a connection that differ in
nothing but the texts of such failures write the same bytes, count the same requests and end for the same reason.

The texts are taken away from everything that holds them: failures, handlers, tables, connections. Every step does the same
with them and without them, so what a peer sees of a run is what it sees of the run without the texts.
-/
import Hypertext.Proofs.Route.Atomicity
import Hypertext.Proofs.Server.Drain

namespace Hypertext

/-! ## Failures without their texts -/

namespace HandlerError

def withoutText : HandlerError → HandlerError
  | .status s _ => .status s ""
  | .unrecoverable _ => .unrecoverable ""
  | .json e => .json e
  | .failure e => .failure { e with text := "" }

/-- The failure as the peer may know it: one that is reported as a server error has no text. -/
def redacted (e : HandlerError) : HandlerError := if e.responseStatus.isServerError then e.withoutText else e

theorem responseStatus_withoutText (e : HandlerError) : e.withoutText.responseStatus = e.responseStatus := by
  cases e <;> rfl

/-- The response is made without the text. -/
theorem response_redacted (e : HandlerError) : e.redacted.response = e.response := by
  unfold redacted
  split
  · next hserver =>
    rw [response, response, responseStatus_withoutText]
    simp only [hserver, if_true]
  · rfl

theorem redacted_ne_unrecoverable {e : HandlerError} (h : ∀ reason, e ≠ .unrecoverable reason) (reason : String) :
    e.redacted ≠ .unrecoverable reason := by
  unfold redacted
  split
  · cases e with
    | unrecoverable reason => exact absurd rfl (h reason)
    | _ => nofun
  · exact h reason

end HandlerError

/-- The end of a handler as the peer may know it. -/
def Completion.redacted : Completion → Completion
  | .response r => .response r
  | .failed e => .failed e.redacted
  | .panicked _ => .panicked none

def Reaction.redacted (r : Reaction) : Reaction := { r with completion := r.completion.redacted }

def Handler.redacted (h : Handler) : Handler := fun c => (h c).redacted

theorem Dispatcher.conclude_failed {e : HandlerError} (h : ∀ reason, e ≠ .unrecoverable reason) :
    conclude (.failed e) = .ok e.response := by
  cases e with
  | unrecoverable reason => exact absurd rfl (h reason)
  | _ => rfl

/-- The response, and the reason to close, come of a completion without its text. -/
theorem Dispatcher.settle_conclude_redacted (k : Completion) :
    Exchange.settle (conclude k.redacted) = Exchange.settle (conclude k) := by
  cases k with
  | response r => rfl
  | panicked text => rfl
  | failed e =>
    by_cases hunrecoverable : ∃ reason, e = .unrecoverable reason
    · obtain ⟨reason, rfl⟩ := hunrecoverable
      rfl
    · have hne : ∀ reason, e ≠ .unrecoverable reason := fun reason he => hunrecoverable ⟨reason, he⟩
      rw [Completion.redacted, conclude_failed hne, conclude_failed (HandlerError.redacted_ne_unrecoverable hne),
        HandlerError.response_redacted]

theorem Exchange.answer_of_settle {outcome outcome' : Except DispatchError Response} (h : settle outcome = settle outcome')
    (running : Bool) (x : Exchange) : x.answer running outcome = x.answer running outcome' := by
  unfold answer
  rw [h]

/-! ## Tables without texts -/

def Table.redacted (t : Table) : Table := ⟨t.routes.map (Route.map Handler.redacted)⟩

def Found.redacted (f : Found) : Found := ⟨f.route.map Handler.redacted, f.params⟩

namespace Table

theorem first?_redacted (t : Table) (method : Method) (path : List String) :
    t.redacted.first? method path = (t.first? method path).map Found.redacted := by
  rw [first?, first?, redacted, List.findSome?_map, List.map_findSome?]
  congr 1
  funext r
  show (if r.method == method then (r.pattern.match? path).map _ else none) =
    Option.map Found.redacted (if r.method == method then (r.pattern.match? path).map _ else none)
  split
  · rw [Option.map_map]
    rfl
  · rfl

theorem allowed_redacted (t : Table) (path : String) : t.redacted.allowed path = t.allowed path := by
  rw [allowed, allowed, allowedParts, allowedParts, redacted, List.filter_map, List.map_map]
  rfl

theorem find_redacted (t : Table) (method : Method) (path : String) :
    t.redacted.find method path = (t.find method path).map Found.redacted := by
  rw [find, find, first?_redacted, allowed_redacted]
  cases t.first? method (splitPath path) with
  | some found => rfl
  | none => cases t.allowed path <;> rfl

end Table

namespace Dispatcher

def redacted (d : Dispatcher) : Dispatcher := { d with table := d.table.redacted }

def Plan.redacted : Plan → Plan
  | .run reaction => .run reaction.redacted
  | .answer outcome => .answer outcome

theorem plan_redacted (d : Dispatcher) (q : Request) : d.redacted.plan q = (d.plan q).redacted := by
  have hrun : ∀ found : Found, run q found.redacted = (run q found).redacted := fun _ => rfl
  rw [plan, plan, redacted, Table.find_redacted, Table.find_redacted]
  cases d.table.find q.method q.path with
  | ok found => exact hrun found
  | error e =>
    cases e with
    | notFound path => rfl
    | methodNotAllowed method path allowed =>
      simp only [Except.map]
      split
      · cases d.table.find .get q.path with
        | ok found => exact hrun found
        | error e => rfl
      · split <;> rfl

end Dispatcher

/-! ## Connections without texts -/

namespace ConnectionRules

def redacted (rules : ConnectionRules) : ConnectionRules := { rules with dispatcher := rules.dispatcher.redacted }

@[simp]
theorem maxRequestBytes_redacted (rules : ConnectionRules) : rules.redacted.maxRequestBytes = rules.maxRequestBytes := rfl

@[simp]
theorem idleTimeout_redacted (rules : ConnectionRules) : rules.redacted.idleTimeout = rules.idleTimeout := rfl

end ConnectionRules

/-- A connection that waits for a handler knows how that will end. -/
def Phase.redacted : Phase → Phase
  | .handling exchange deadline ends completion => .handling exchange deadline ends completion.redacted
  | phase => phase

namespace Connection

variable {c after : Connection} {rules : ConnectionRules} {now : Nat} {status : ShutdownState}

def redacted (c : Connection) : Connection := { c with phase := c.phase.redacted }

/-- Only a connection that waits for a handler has a text to lose. -/
def Handling (c : Connection) : Prop :=
  ∃ exchange deadline ends completion, c.phase = .handling exchange deadline ends completion

theorem redacted_eq_self (h : ¬ c.Handling) : c.redacted = c := by
  have hphase : c.phase.redacted = c.phase := by
    cases hp : c.phase with
    | handling exchange deadline ends completion => exact absurd ⟨_, _, _, _, hp⟩ h
    | _ => rfl
  rw [redacted, hphase]

theorem not_handling_of_dispatching {request : Request} (hp : c.phase = .dispatching request) : ¬ c.Handling := by
  rintro ⟨exchange, deadline, ends, completion, hphase⟩
  cases hp.symm.trans hphase

@[simp]
theorem redacted_note (event : ConnectionEvent) (c : Connection) : (c.note event).redacted = c.redacted.note event := rfl

@[simp]
theorem redacted_move (next : ConnectionState) (c : Connection) : (c.move next).redacted = c.redacted.move next := by
  unfold move
  by_cases h : c.state = next
  · rw [if_pos h, if_pos (show c.redacted.state = next from h)]
  · rw [if_neg h, if_neg (show ¬ c.redacted.state = next from h)]
    rfl

theorem redacted_finish (reason : CloseReason) (c : Connection) :
    (c.finish reason).redacted = c.redacted.finish reason := by
  unfold finish
  rw [← redacted_move]
  rfl

/-- An answer says nothing of the text. -/
theorem redacted_answer {outcome outcome' : Except DispatchError Response}
    (h : Exchange.settle outcome' = Exchange.settle outcome) (status : ShutdownState) (x : Exchange) (c : Connection) :
    (c.answer status outcome x).redacted = c.redacted.answer status outcome' x := by
  unfold answer
  rw [Exchange.answer_of_settle h]
  split
  · rfl
  · rw [← redacted_move]
    rfl

/-- A handler is waited for only after a dispatch, which begins it. -/
theorem Advance.not_handling (h : Advance rules now status c after)
    (hc : ∀ request, c.phase ≠ .dispatching request) : ¬ after.Handling := by
  rintro ⟨exchange, deadline, ends, completion, hp⟩
  cases h with
  | begin phase => exact hc _ phase
  | take => cases (phase_move _ _).symm.trans hp
  | @follow sequel => cases sequel <;> cases hp
  | linger phase => cases phase.symm.trans hp
  | _ => cases hp

/-- Where no handler is begun or waited for, the table does not matter. -/
theorem step_redacted_rules (hphase : ∀ request, c.phase ≠ .dispatching request) (hc : ¬ c.Handling) :
    c.step rules.redacted now status = c.step rules now status := by
  cases hp : c.phase with
  | dispatching request => exact absurd hp (hphase request)
  | handling exchange deadline ends completion => exact absurd ⟨_, _, _, _, hp⟩ hc
  | examining deadline => simp only [step, hp, examine, ConnectionRules.maxRequestBytes_redacted]
  | reading deadline => simp only [step, hp, awaitBytes, await, ConnectionRules.idleTimeout_redacted]
  | answering rest sequel => simp only [step, hp, writeAnswer, follow, await, ConnectionRules.idleTimeout_redacted]
  | refusing rest reason => simp only [step, hp]
  | lingering deadline =>
    rw [step, step, hp]
    rfl
  | closed reason => simp only [step, hp]

theorem dispatch_redacted {request : Request} (hp : c.phase = .dispatching request) :
    (c.dispatch rules now status request).redacted = c.dispatch rules.redacted now status request := by
  have hself : c.redacted = c := redacted_eq_self (not_handling_of_dispatching hp)
  unfold dispatch
  split
  · rw [redacted_finish, hself]
  · simp only [ConnectionRules.redacted, Dispatcher.plan_redacted]
    cases rules.dispatcher.plan request with
    | answer outcome =>
      simp only [Dispatcher.Plan.redacted]
      rw [redacted_answer rfl, redacted_note, hself]
    | run reaction => rfl

theorem awaitHandler_redacted {exchange : Exchange} {deadline ends : Nat} {completion : Completion} :
    (c.awaitHandler rules now status exchange deadline ends completion).map redacted =
      c.redacted.awaitHandler rules.redacted now status exchange deadline ends completion.redacted := by
  unfold awaitHandler
  split
  · exact congrArg some (redacted_finish _ c)
  · split
    · exact congrArg some (redacted_answer rfl _ _ c)
    · split
      · exact congrArg some (redacted_answer (Dispatcher.settle_conclude_redacted completion) _ _ c)
      · rfl

/-- A step does the same with the texts and without them. -/
theorem step_redacted (rules : ConnectionRules) (now : Nat) (status : ShutdownState) (c : Connection) :
    (c.step rules now status).map redacted = c.redacted.step rules.redacted now status := by
  by_cases hdispatching : ∃ request, c.phase = .dispatching request
  · obtain ⟨request, hp⟩ := hdispatching
    rw [redacted_eq_self (not_handling_of_dispatching hp), step, step, hp]
    exact congrArg some (dispatch_redacted hp)
  by_cases hc : c.Handling
  · obtain ⟨exchange, deadline, ends, completion, hp⟩ := hc
    have hp' : c.redacted.phase = .handling exchange deadline ends completion.redacted := congrArg Phase.redacted hp
    rw [step, step, hp, hp']
    exact awaitHandler_redacted
  · have hphase : ∀ request, c.phase ≠ .dispatching request := fun request hp => hdispatching ⟨request, hp⟩
    rw [redacted_eq_self hc, step_redacted_rules hphase hc]
    cases hstep : c.step rules now status with
    | none => rfl
    | some after => exact congrArg some (redacted_eq_self ((step_advance hstep).not_handling hphase))

theorem redacted_leave (c : Connection) : c.leave.redacted = c.redacted.leave := by
  unfold leave
  by_cases h : c.buffer.bytes.isEmpty = true
  · rw [if_pos h, if_pos (show c.redacted.buffer.bytes.isEmpty = true from h), redacted_finish]
  · rw [if_neg h, if_neg (show ¬ c.redacted.buffer.bytes.isEmpty = true from h)]
    rfl

theorem failRead_redacted (status : ShutdownState) (c : Connection) :
    (c.failRead status).map redacted = c.redacted.failRead status := by
  cases hp : c.phase with
  | reading deadline =>
    have hp' : c.redacted.phase = .reading deadline := congrArg Phase.redacted hp
    rw [failRead, failRead, hp, hp', ← redacted_finish]
    exact apply_ite (Option.map redacted) _ _ _
  | lingering deadline =>
    have hp' : c.redacted.phase = .lingering deadline := congrArg Phase.redacted hp
    rw [failRead, failRead, hp, hp']
    exact congrArg some (redacted_leave c)
  | _ =>
    have hp' := congrArg Phase.redacted hp
    rw [failRead, failRead, hp, redacted, hp']
    rfl

theorem failWrite_redacted (status : ShutdownState) (c : Connection) :
    (c.failWrite status).map redacted = c.redacted.failWrite status := by
  cases hp : c.phase with
  | answering rest sequel =>
    have hp' : c.redacted.phase = .answering rest sequel := congrArg Phase.redacted hp
    rw [failWrite, failWrite, hp, hp', ← redacted_finish]
    exact apply_ite (Option.map redacted) _ _ _
  | refusing rest reason =>
    have hp' : c.redacted.phase = .refusing rest reason := congrArg Phase.redacted hp
    rw [failWrite, failWrite, hp, hp']
    exact congrArg some (redacted_finish reason c)
  | _ =>
    have hp' := congrArg Phase.redacted hp
    rw [failWrite, failWrite, hp, redacted, hp']
    rfl

end Connection

/-! ## Runs -/

/-- What can happen in the lifetime of a connection, reads and writes that fail among it. A step finds the handlers as a
table has them. -/
inductive Event
  | step (table : Table)
  | send (piece : Bytes)
  | endSending
  | hangUp
  | receive (most : Nat)
  | pass (ms : Nat)
  | shutDown (next : ShutdownState)
  | reserve (capacity gap : Nat)
  | failRead
  | failWrite

/-- An event whose handlers fail without a text. -/
def Event.redacted : Event → Event
  | .step table => .step table.redacted
  | event => event

/-- Whether an answer has been written that is not counted yet. -/
def Phase.isUncounted : Phase → Bool
  | .answering [] _ => true
  | _ => false

namespace Lifetime

variable {rules : ConnectionRules} {t u v : Lifetime}

/-- What comes of an event; none if it cannot happen. -/
def after? (rules : ConnectionRules) : Event → Lifetime → Option Lifetime
  | .step table, t =>
    (t.connection.step (rules.withTable table) t.now t.shutdown).map fun c =>
      t.stepped (rules.withTable table).dispatcher c
  | .send piece, t =>
    if t.connection.inbound.closed then none
    else some { t with
      connection := { t.connection with inbound := t.connection.inbound.send piece }
      sent := t.sent ++ piece }
  | .endSending, t => some { t with connection := { t.connection with inbound := t.connection.inbound.close } }
  | .hangUp, t =>
    some { t with
      connection := { t.connection with
        inbound := t.connection.inbound.close, outbound := t.connection.outbound.close }
      hungUp := true }
  | .receive most, t =>
    some { t with
      connection := { t.connection with outbound := (t.connection.outbound.read most).2 }
      received := t.received ++ (t.connection.outbound.read most).1 }
  | .pass ms, t => some { t with now := t.now + ms }
  | .shutDown next, t =>
    if next.isRunning || t.shutdown.isTerminated || t.connection.phase.isUncounted then none
    else some { t with shutdown := next }
  | .reserve capacity gap, t =>
    some { t with connection := { t.connection with buffer := ⟨capacity, gap, t.connection.buffer.bytes⟩ } }
  | .failRead, t => (t.connection.failRead t.shutdown).map fun c => { t with connection := c }
  | .failWrite, t => (t.connection.failWrite t.shutdown).map fun c => { t with connection := c }

/-- What comes of events, one after another; none if one of them cannot happen. -/
def follow (rules : ConnectionRules) : List Event → Lifetime → Option Lifetime
  | [], t => some t
  | event :: events, t => (after? rules event t).bind (follow rules events)

theorem follow_append (events : List Event) (event : Event) :
    follow rules (events ++ [event]) t = (follow rules events t).bind (after? rules event) := by
  induction events generalizing t with
  | nil =>
    show (after? rules event t).bind some = after? rules event t
    exact Option.bind_fun_some _
  | cons first events ih =>
    show (after? rules first t).bind _ = ((after? rules first t).bind _).bind _
    rw [Option.bind_assoc]
    congr 1
    funext u
    exact ih

/-! ### The runs of events are all runs -/

theorem Move.exists_event (h : Move rules t u) : ∃ event, after? rules event t = some u := by
  cases h with
  | step table hstep => exact ⟨.step table, by rw [after?, hstep]; rfl⟩
  | send piece hopen => exact ⟨.send piece, by rw [after?, if_neg (by simp [hopen])]⟩
  | endSending => exact ⟨.endSending, rfl⟩
  | hangUp => exact ⟨.hangUp, rfl⟩
  | receive most => exact ⟨.receive most, rfl⟩
  | pass ms => exact ⟨.pass ms, rfl⟩
  | reserve capacity gap => exact ⟨.reserve capacity gap, rfl⟩
  | shutDown next begun unended counted =>
    have hbegun : next.isRunning = false := by cases next <;> simp_all [ShutdownState.isRunning]
    have hunended : t.shutdown.isTerminated = false := by
      rw [← Bool.not_eq_true, ShutdownState.isTerminated_iff]
      exact unended
    have hcounted : t.connection.phase.isUncounted = false := by
      unfold Phase.isUncounted
      split
      · next sequel hp => exact absurd hp (counted sequel)
      · rfl
    exact ⟨.shutDown next, by rw [after?, hbegun, hunended, hcounted]; rfl⟩

/-- Any course that a connection can take is that of some events. -/
theorem Course.exists_follow {broken : Bool} (h : Course rules t broken u) : ∃ events, follow rules events t = some u := by
  have hone : ∀ {u v : Lifetime} {event : Event}, (∃ events, follow rules events t = some u) →
      after? rules event u = some v → ∃ events, follow rules events t = some v := by
    rintro u v event ⟨events, hevents⟩ hevent
    exact ⟨events ++ [event], by rw [follow_append, hevents, Option.bind_some, hevent]⟩
  induction h with
  | refl => exact ⟨[], rfl⟩
  | move _ next ih =>
    obtain ⟨event, hevent⟩ := next.exists_event
    exact hone ih hevent
  | @failRead _ u c _ hfail ih =>
    have hevent : after? rules .failRead u = some { u with connection := c } := by rw [after?, hfail]; rfl
    exact hone ih hevent
  | @failWrite _ u c _ hfail ih =>
    have hevent : after? rules .failWrite u = some { u with connection := c } := by rw [after?, hfail]; rfl
    exact hone ih hevent

/-- An event is a move, or a read or a write that fails. -/
theorem Course.event {broken : Bool} (h : Course rules t broken u) {event : Event} (hevent : after? rules event u = some v) :
    ∃ broken', Course rules t broken' v := by
  cases event with
  | step table =>
    obtain ⟨c, hc, rfl⟩ := Option.map_eq_some_iff.1 hevent
    exact ⟨_, h.move (.step table hc)⟩
  | send piece =>
    rw [after?] at hevent
    split_ifs at hevent with hclosed
    cases hevent
    exact ⟨_, h.move (.send piece (by simpa using hclosed))⟩
  | endSending => cases hevent; exact ⟨_, h.move .endSending⟩
  | hangUp => cases hevent; exact ⟨_, h.move .hangUp⟩
  | receive most => cases hevent; exact ⟨_, h.move (.receive most)⟩
  | pass ms => cases hevent; exact ⟨_, h.move (.pass ms)⟩
  | reserve capacity gap => cases hevent; exact ⟨_, h.move (.reserve capacity gap)⟩
  | shutDown next =>
    rw [after?] at hevent
    split_ifs at hevent with hdisabled
    cases hevent
    simp only [Bool.or_eq_true, not_or, Bool.not_eq_true] at hdisabled
    obtain ⟨⟨hbegun, hunended⟩, hcounted⟩ := hdisabled
    refine ⟨_, h.move (.shutDown next ?_ ?_ fun sequel hp => ?_)⟩
    · rintro rfl
      cases hbegun
    · intro hended
      rw [hended] at hunended
      cases hunended
    · rw [hp] at hcounted
      cases hcounted
  | failRead =>
    obtain ⟨c, hc, rfl⟩ := Option.map_eq_some_iff.1 hevent
    exact ⟨_, h.failRead hc⟩
  | failWrite =>
    obtain ⟨c, hc, rfl⟩ := Option.map_eq_some_iff.1 hevent
    exact ⟨_, h.failWrite hc⟩

/-- The courses that a connection can take are those of events. -/
theorem exists_course_iff : (∃ broken, Course rules t broken u) ↔ ∃ events, follow rules events t = some u := by
  have hfollow : ∀ {events : List Event} {broken : Bool} {v : Lifetime}, Course rules t broken v →
      follow rules events v = some u → ∃ broken', Course rules t broken' u := by
    intro events
    induction events with
    | nil =>
      intro broken v h hv
      cases hv
      exact ⟨broken, h⟩
    | cons event events ih =>
      intro broken v h hv
      obtain ⟨v', hevent, hrest⟩ := Option.bind_eq_some_iff.1 hv
      obtain ⟨broken', h'⟩ := h.event hevent
      exact ih h' hrest
  exact ⟨fun ⟨_, h⟩ => h.exists_follow, fun ⟨_, h⟩ => hfollow .refl h⟩

/-! ### Runs without texts -/

def redacted (t : Lifetime) : Lifetime :=
  { t with
    connection := t.connection.redacted
    calls := t.calls.map fun call => ⟨call.request, call.dispatcher.redacted⟩ }

theorem redacted_stepped (d : Dispatcher) (c : Connection) (t : Lifetime) :
    (t.stepped d c).redacted = t.redacted.stepped d.redacted c.redacted := by
  have hcalls : (t.connection.calls d c).map (fun call => (⟨call.request, call.dispatcher.redacted⟩ : Call)) =
      t.connection.redacted.calls d.redacted c.redacted := by
    unfold Connection.calls Connection.redacted
    cases t.connection.phase <;> cases c.phase <;> rfl
  have hsamples : t.connection.samples t.shutdown c = t.connection.redacted.samples t.shutdown c.redacted := by
    unfold Connection.samples Connection.redacted
    cases t.connection.phase <;> cases c.phase <;> rfl
  simp only [redacted, stepped, List.map_append, hcalls, hsamples]

/-- An event does the same with the texts and without them. -/
theorem after?_redacted (event : Event) (t : Lifetime) :
    (after? rules event t).map redacted = after? rules event.redacted t.redacted := by
  cases event with
  | step table =>
    have hstep := Connection.step_redacted (rules.withTable table) t.now t.shutdown t.connection
    show Option.map redacted (Option.map _ _) =
      Option.map _ (t.connection.redacted.step (rules.withTable table).redacted t.now t.shutdown)
    rw [← hstep, Option.map_map, Option.map_map]
    congr 1
    funext c
    exact redacted_stepped _ c t
  | send piece =>
    rw [after?, apply_ite (Option.map redacted)]
    rfl
  | shutDown next =>
    have hcounted : t.redacted.connection.phase.isUncounted = t.connection.phase.isUncounted := by
      show t.connection.phase.redacted.isUncounted = _
      cases t.connection.phase <;> rfl
    show Option.map redacted (if _ then _ else _) =
      if next.isRunning || t.shutdown.isTerminated || t.redacted.connection.phase.isUncounted then _ else _
    rw [hcounted, apply_ite (Option.map redacted)]
    rfl
  | failRead =>
    show Option.map redacted (Option.map _ _) = Option.map _ (t.connection.redacted.failRead t.shutdown)
    rw [← Connection.failRead_redacted, Option.map_map, Option.map_map]
    rfl
  | failWrite =>
    show Option.map redacted (Option.map _ _) = Option.map _ (t.connection.redacted.failWrite t.shutdown)
    rw [← Connection.failWrite_redacted, Option.map_map, Option.map_map]
    rfl
  | _ => rfl

theorem follow_redacted (events : List Event) (t : Lifetime) :
    (follow rules events t).map redacted = follow rules (events.map Event.redacted) t.redacted := by
  induction events generalizing t with
  | nil => rfl
  | cons event events ih =>
    show ((after? rules event t).bind _).map _ = (after? rules event.redacted t.redacted).bind _
    rw [← after?_redacted, Option.map_bind, Option.bind_map]
    congr 1
    funext u
    exact ih u

/-- Runs of the same events, but for the texts of failures that are reported as server errors, come about alike, write the
same bytes, count the same requests and end for the same reason. -/
theorem failures_concealed (rules : ConnectionRules) (id : ConnectionId) (capacity now : Nat) {events events' : List Event}
    (hsame : events.map Event.redacted = events'.map Event.redacted)
    (h : follow rules events (start rules id capacity now) = some t) :
    ∃ t', follow rules events' (start rules id capacity now) = some t' ∧ t'.written = t.written ∧
      t'.received = t.received ∧ t'.connection.served = t.connection.served ∧
        t'.connection.summary? = t.connection.summary? := by
  have hredacted : (follow rules events (start rules id capacity now)).map redacted = _ := follow_redacted events _
  rw [hsame, ← follow_redacted, h] at hredacted
  obtain ⟨t', ht', heq⟩ := Option.map_eq_some_iff.1 hredacted.symm
  have hsummary : ∀ u : Lifetime, u.connection.summary? = u.redacted.connection.summary? := by
    intro u
    show _ = Connection.summary? { u.connection with phase := u.connection.phase.redacted }
    unfold Connection.summary?
    cases u.connection.phase <;> rfl
  refine ⟨t', ht', ?_, ?_, ?_, ?_⟩
  · show t'.redacted.written = t.redacted.written
    rw [heq]
  · show t'.redacted.received = t.redacted.received
    rw [heq]
  · show t'.redacted.connection.served = t.redacted.connection.served
    rw [heq]
  · rw [hsummary, hsummary t, heq]

/-- A handler that fails with this message. -/
def failingHandler (message : String) : Handler := fun _ => ⟨0, .failed (.status .internalServerError message)⟩

def failing (message : String) : Table := ⟨[⟨.get, ⟨"/", []⟩, failingHandler message⟩]⟩

/-- A request for it that is answered. -/
def failingEvents (message : String) : List Event :=
  .send (Bytes.ofText "GET / HTTP/1.1\r\n\r\n") :: List.replicate 7 (.step (failing message))

theorem redacted_failing (message : String) : (failing message).redacted = failing "" := by
  have hserver : (HandlerError.status .internalServerError message).responseStatus.isServerError = true := rfl
  have hhandler : (failingHandler message).redacted = failingHandler "" := by
    funext c
    exact congrArg (fun e => (⟨0, .failed e⟩ : Reaction)) (if_pos hserver)
  show Table.mk [⟨_, _, (failingHandler message).redacted⟩] = _
  rw [hhandler, failing]

theorem redacted_failingEvents (message message' : String) :
    (failingEvents message).map Event.redacted = (failingEvents message').map Event.redacted := by
  have hsteps : Event.redacted (.step (failing message)) = Event.redacted (.step (failing message')) :=
    congrArg Event.step ((redacted_failing message).trans (redacted_failing message').symm)
  rw [failingEvents, failingEvents, List.map_cons, List.map_cons, List.map_replicate, List.map_replicate, hsteps]

/-- Nothing but limits: each step brings its routes. -/
def unhurried : ConnectionRules := ⟨⟨.empty, .ofMillis 1000⟩, 1000, 1000, false, Gzip.gzip⟩

theorem follow_failingEvents : (follow unhurried (failingEvents "disk full") (start unhurried ⟨1⟩ 1000 0)).map
    (fun t => (t.connection.served, t.written.isEmpty)) = some (1, false) := by decide +kernel

/-- The message of the failure changes nothing of the answer. -/
theorem failure_concealed :
    ∃ t t', follow unhurried (failingEvents "disk full") (start unhurried ⟨1⟩ 1000 0) = some t ∧
      follow unhurried (failingEvents "no such table: users") (start unhurried ⟨1⟩ 1000 0) = some t' ∧
        t.connection.served = 1 ∧ t.written ≠ [] ∧ t'.written = t.written := by
  obtain ⟨t, ht, hobserved⟩ := Option.map_eq_some_iff.1 follow_failingEvents
  obtain ⟨hserved, hwritten⟩ := Prod.mk.inj hobserved
  obtain ⟨t', ht', hsame, -⟩ :=
    failures_concealed unhurried ⟨1⟩ 1000 0 (redacted_failingEvents _ "no such table: users") ht
  exact ⟨t, t', ht, ht', hserved, by simpa using hwritten, hsame⟩

end Lifetime

end Hypertext
