/-
The size limit over a lifetime. The requests that a connection takes off what its peer sends are the requests at the
front of it, one after another, and each of them that has a body is no larger than the limit allows. One that is larger
is not taken: no more bytes of it than the limit are waited for, and then it is refused and the connection ends.
-/
import Hypertext.Proofs.Server.KeepAlive
import Hypertext.Proofs.Server.RequestSize
import Mathlib.Control.Monad.Basic

namespace Hypertext

/-! ## Requests on the wire -/

/-- A request that has been taken off a stream, and its bytes there. -/
structure Portion where
  request : Request
  bytes : Bytes

/-- The request has no body, or it is no larger than the limit allows. -/
def Portion.Within (limit : Nat) (p : Portion) : Prop :=
  ∃ framing, p.request.framing = .ok framing ∧
    (framing = .empty ∨ p.bytes.length ≤ limit + framing.uncounted)

namespace Request

/-- Requests that stand at the front of a stream, one after another, and the bytes after them. -/
inductive Opens (stream : Bytes) : List Portion → Bytes → Prop
  | start : Opens stream [] stream
  | take {taken : List Portion} {r : Request} {bytes later : Bytes} (before : Opens stream taken (bytes ++ later))
      (front : front? (bytes ++ later) = some (r, later)) : Opens stream (taken ++ [⟨r, bytes⟩]) later

variable {stream later : Bytes} {taken : List Portion}

/-- Bytes that come later come after the requests. -/
theorem Opens.append (h : Opens stream taken later) (t : Bytes) : Opens (stream ++ t) taken (later ++ t) := by
  induction h with
  | start => exact .start
  | @take taken r bytes later before front ih =>
    rw [List.append_assoc] at ih
    have hfront := front?_append front t
    rw [List.append_assoc] at hfront
    exact ih.take hfront

theorem Opens.stream_eq (h : Opens stream taken later) : stream = taken.flatMap (·.bytes) ++ later := by
  induction h with
  | start => rfl
  | take before front ih =>
    rw [ih]
    simp

end Request

/-! ## What has been taken -/

/-- Why a connection ends, or has ended. -/
def Phase.reason? : Phase → Option CloseReason
  | .refusing _ reason | .closed reason => some reason
  | _ => none

theorem Phase.drains_answering (rest rest' : Bytes) (sequel : Sequel) :
    (Phase.answering rest sequel).drains = (Phase.answering rest' sequel).drains := by
  cases sequel <;> rfl

/-- Whether a phase has nothing to do with a shutdown. -/
def Phase.Calm (phase : Phase) : Prop :=
  phase.drains = false ∧ phase.reason? ≠ some .drained ∧ phase.reason? ≠ some .forced

/-- Which requests have been taken: those that have been dispatched, and the one that is to be dispatched next. -/
def Phase.Takes (dispatched taken : List Request) : Phase → Prop
  | .dispatching request => taken = dispatched ++ [request]
  | .closed .forced => dispatched <+: taken
  | _ => taken = dispatched

/-- Whether a connection waits for bytes, or has ended waiting. -/
def Phase.Waits : Phase → Prop
  | .reading _ | .closed .peerClosed | .closed .idleTimeout => True
  | _ => False

theorem Phase.waits_closed_iff {reason : CloseReason} :
    (Phase.closed reason).Waits ↔ reason = .peerClosed ∨ reason = .idleTimeout := by
  cases reason <;> simp [Waits]

/-- A connection that has ended has taken what it has dispatched. -/
theorem Phase.takes_closed {reason : CloseReason} {dispatched taken : List Request} (h : taken = dispatched) :
    (Phase.closed reason).Takes dispatched taken := by
  cases reason
  case forced => exact h ▸ List.prefix_refl _
  all_goals exact h

theorem ShutdownState.isTerminated_of_isRunning {status : ShutdownState} (h : status.isRunning = true) :
    status.isTerminated = false := by
  cases status with
  | running => rfl
  | draining deadline => cases h
  | terminated => cases h

/-- All bytes of a pipe come to its reader: none waits, or those that wait come in when there is room. -/
def Pipe.Flows (p : Pipe) : Prop := p.waiting = [] ∨ p.closed = false ∧ p.Settled ∧ 0 < p.capacity

namespace Pipe.Flows

variable {p : Pipe}

theorem contents_eq_nil (h : p.Flows) (hbytes : p.bytes = []) : p.contents = [] := by
  rcases h with hwaiting | ⟨-, hsettled, hcapacity⟩
  · rw [contents, hbytes, hwaiting]
    rfl
  · rw [contents, hbytes, hsettled.waiting_eq_nil hcapacity hbytes]
    rfl

theorem read (h : p.Flows) (most : Nat) : (p.read most).2.Flows := by
  rcases h with hwaiting | ⟨hopen, -, hcapacity⟩
  · exact .inl (Pipe.waiting_read hwaiting most)
  · refine .inr ⟨?_, settled_read_of_open hopen most, ?_⟩
    · rw [closed_read]
      exact hopen
    · rw [capacity_read]
      exact hcapacity

end Pipe.Flows

namespace Lifetime

/-- What has been taken off the bytes that the peer has sent, and what has not. -/
structure Taking (rules : ConnectionRules) (taken : List Portion) (later : Bytes) (t : Lifetime) : Prop where
  opens : Request.Opens t.sent taken later
  within : ∀ p ∈ taken, p.Within rules.maxRequestBytes
  requests : t.connection.phase.Takes t.connection.dispatched (taken.map (·.request))
  unread : t.connection.refused = [] → t.connection.buffer.bytes ++ t.connection.inbound.contents = later
  waits : t.connection.phase.Waits →
    Admission.ofBuffer rules.maxRequestBytes t.connection.buffer.bytes = .wait
  tooLarge : t.connection.phase.reason? = some .payloadTooLarge → t.connection.refused = [sizeRefusal]
  malformed : t.connection.phase.reason? = some .badRequest → ∃ b, b <+: later ∧
    Admission.ofBuffer rules.maxRequestBytes b = Admission.malformed
  calm : t.shutdown.isRunning = true → t.connection.phase.Calm

variable {rules : ConnectionRules} {taken : List Portion} {later : Bytes} {t u : Lifetime} {c : Connection}
  {dispatcher : Dispatcher}

theorem taking_start (id : ConnectionId) (capacity now : Nat) :
    (start rules id capacity now).Taking rules [] [] where
  opens := .start
  within := by rintro p ⟨⟩
  requests := rfl
  unread _ := rfl
  waits := by rintro ⟨⟩
  tooLarge := by rintro ⟨⟩
  malformed := by rintro ⟨⟩
  calm _ := ⟨rfl, nofun, nofun⟩

/-- A step that takes nothing. -/
theorem Taking.keep (h : t.Taking rules taken later) (hrequests : c.phase.Takes c.dispatched (taken.map (·.request)))
    (hunread : c.refused = [] → t.connection.refused = [] ∧ c.buffer.bytes ++ c.inbound.contents =
      t.connection.buffer.bytes ++ t.connection.inbound.contents)
    (hwaits : c.phase.Waits → Admission.ofBuffer rules.maxRequestBytes c.buffer.bytes = .wait)
    (htooLarge : c.phase.reason? = some .payloadTooLarge → c.refused = [sizeRefusal])
    (hmalformed : c.phase.reason? = some .badRequest → ∃ b, b <+: later ∧
      Admission.ofBuffer rules.maxRequestBytes b = Admission.malformed)
    (hcalm : t.shutdown.isRunning = true → c.phase.Calm) : (t.stepped dispatcher c).Taking rules taken later where
  opens := h.opens
  within := h.within
  requests := hrequests
  unread hrefused := by
    obtain ⟨hnone, hsame⟩ := hunread hrefused
    exact hsame.trans (h.unread hnone)
  waits := hwaits
  tooLarge := htooLarge
  malformed := hmalformed
  calm := hcalm

/-- A step that takes nothing and goes on. -/
theorem Taking.keep_open (h : t.Taking rules taken later) (hnone : c.phase.reason? = none)
    (hrequests : c.phase.Takes c.dispatched (taken.map (·.request)))
    (hrefused : c.refused = t.connection.refused) (hunread : c.buffer.bytes ++ c.inbound.contents =
      t.connection.buffer.bytes ++ t.connection.inbound.contents)
    (hwaits : c.phase.Waits → Admission.ofBuffer rules.maxRequestBytes c.buffer.bytes = .wait)
    (hcalm : t.shutdown.isRunning = true → c.phase.drains = false) :
    (t.stepped dispatcher c).Taking rules taken later := by
  refine h.keep hrequests (fun hr => ⟨hrefused.symm.trans hr, hunread⟩) hwaits ?_ ?_ fun hs => ⟨hcalm hs, ?_, ?_⟩
  all_goals
    rw [hnone]
    nofun

/-- The connection ends. -/
theorem Taking.finish (h : t.Taking rules taken later) {reason : CloseReason}
    (hrequests : (Phase.closed reason).Takes t.connection.dispatched (taken.map (·.request)))
    (hwaits : reason = .peerClosed ∨ reason = .idleTimeout →
      Admission.ofBuffer rules.maxRequestBytes t.connection.buffer.bytes = .wait)
    (htooLarge : reason = .payloadTooLarge → t.connection.refused = [sizeRefusal])
    (hmalformed : reason = .badRequest → ∃ b, b <+: later ∧
      Admission.ofBuffer rules.maxRequestBytes b = Admission.malformed)
    (hcalm : t.shutdown.isRunning = true → reason ≠ .drained ∧ reason ≠ .forced) :
    (t.stepped dispatcher (t.connection.finish reason)).Taking rules taken later := by
  have hbuffer : (t.connection.finish reason).buffer = t.connection.buffer := Connection.buffer_move _ _
  refine h.keep ?_ ?_ ?_ ?_ ?_ ?_
  · rw [Connection.dispatched_finish]
    exact hrequests
  · intro hrefused
    refine ⟨(Connection.refused_move t.connection .closed).symm.trans hrefused, ?_⟩
    rw [hbuffer]
    rfl
  · intro hw
    rw [hbuffer]
    exact hwaits (Phase.waits_closed_iff.1 hw)
  · rintro ⟨⟩
    exact (Connection.refused_move t.connection .closed).trans (htooLarge rfl)
  · rintro ⟨⟩
    exact hmalformed rfl
  · intro hs
    obtain ⟨hdrained, hforced⟩ := hcalm hs
    exact ⟨rfl, fun he => hdrained (Option.some.inj he), fun he => hforced (Option.some.inj he)⟩

/-- A request is taken off what has been read. -/
theorem Taking.take (h : t.Taking rules taken later) {deadline : Nat} {request : Request} {rest : Bytes}
    (hp : t.connection.phase = .examining deadline) (hrefused : t.connection.refused = [])
    (found : Admission.ofBuffer rules.maxRequestBytes t.connection.buffer.bytes = .serve request rest) :
    ∃ taken later, (t.stepped dispatcher ({ t.connection with
      phase := .dispatching request, buffer := t.connection.buffer.keep rest }.move .active)).Taking rules taken
        later := by
  have hunread := h.unread hrefused
  have hrequests := h.requests
  rw [hp] at hrequests
  obtain ⟨bytes, hbytes⟩ := Admission.serve_suffix found
  have hlater : bytes ++ (rest ++ t.connection.inbound.contents) = later := by
    rw [← List.append_assoc, hbytes]
    exact hunread
  refine ⟨taken ++ [⟨request, bytes⟩], rest ++ t.connection.inbound.contents, ?_⟩
  have hfront := Request.front?_append (Admission.front?_of_serve found) t.connection.inbound.contents
  rw [hunread, ← hlater] at hfront
  constructor
  case opens =>
    have hopens := h.opens
    rw [← hlater] at hopens
    exact hopens.take hfront
  case within =>
    intro p hmem
    rcases List.mem_append.1 hmem with hmem | hmem
    · exact h.within p hmem
    · rw [List.mem_singleton.1 hmem]
      obtain ⟨framing, hf, hsize⟩ := Admission.size_of_serve found
      refine ⟨framing, hf, hsize.imp_right ?_⟩
      intro hle
      rw [← hbytes, List.length_append, Nat.add_sub_cancel] at hle
      exact hle
  case requests =>
    show Phase.Takes _ _ (Connection.move _ _).phase
    rw [Connection.phase_move, List.map_append]
    show _ = (Connection.move _ _).dispatched ++ _
    rw [Connection.dispatched_move, hrequests]
    rfl
  case unread =>
    intro _
    show (Connection.move _ _).buffer.bytes ++ (Connection.move _ _).inbound.contents = _
    rw [Connection.buffer_move, Connection.inbound_move]
    rfl
  case waits =>
    show (Connection.move _ _).phase.Waits → _
    rw [Connection.phase_move]
    nofun
  case tooLarge =>
    show (Connection.move _ _).phase.reason? = _ → _
    rw [Connection.phase_move]
    nofun
  case malformed =>
    show (Connection.move _ _).phase.reason? = _ → _
    rw [Connection.phase_move]
    nofun
  case calm =>
    intro _
    show (Connection.move _ _).phase.Calm
    rw [Connection.phase_move]
    exact ⟨rfl, nofun, nofun⟩

/-- What has been read is refused. -/
theorem Taking.refuse (h : t.Taking rules taken later) (hrequests : taken.map (·.request) = t.connection.dispatched)
    (hrefused : t.connection.refused = []) {fault : Status} {message : String} {reason : CloseReason}
    (hreason : reason = .payloadTooLarge ∧ Exchange.refusal fault message = sizeRefusal ∨
      reason = .badRequest ∧
        Admission.ofBuffer rules.maxRequestBytes t.connection.buffer.bytes = Admission.malformed ∨
      reason = .drained ∧ t.shutdown.isRunning = false) :
    (t.stepped dispatcher (t.connection.refuse fault message reason)).Taking rules taken later := by
  have hrefuse : (t.connection.refuse fault message reason).refused = [Exchange.refusal fault message] := by
    show (t.connection.note _).refused = _
    rw [Connection.refused_note_refused, hrefused]
    rfl
  refine h.keep ?_ ?_ nofun ?_ ?_ ?_
  · show _ = Connection.dispatched _
    rw [Connection.dispatched_refuse]
    exact hrequests
  · intro hnone
    rw [hrefuse] at hnone
    cases hnone
  · rintro ⟨⟩
    rcases hreason with ⟨-, hbytes⟩ | ⟨⟨⟩, -⟩ | ⟨⟨⟩, -⟩
    rw [hrefuse, hbytes]
  · rintro ⟨⟩
    rcases hreason with ⟨⟨⟩, -⟩ | ⟨-, hmalformed⟩ | ⟨⟨⟩, -⟩
    exact ⟨_, ⟨_, h.unread hrefused⟩, hmalformed⟩
  · intro hs
    refine ⟨rfl, ?_, ?_⟩
    · rintro ⟨⟩
      rcases hreason with ⟨⟨⟩, -⟩ | ⟨⟨⟩, -⟩ | ⟨-, hstops⟩
      rw [hs] at hstops
      cases hstops
    · rintro ⟨⟩
      rcases hreason with ⟨⟨⟩, -⟩ | ⟨⟨⟩, -⟩ | ⟨⟨⟩, -⟩

/-- A dispatch has come to an outcome. -/
theorem Taking.answer (h : t.Taking rules taken later) (hrequests : taken.map (·.request) = c.dispatched)
    (hrefused : c.refused = t.connection.refused) (hbuffer : c.buffer = t.connection.buffer)
    (hinbound : c.inbound = t.connection.inbound) (outcome : Except DispatchError Response) (x : Exchange) :
    (t.stepped dispatcher (c.answer t.shutdown outcome x)).Taking rules taken later := by
  obtain ⟨hdispatched, -, hrefuse, -, -⟩ := c.answer_adds t.shutdown outcome x
  refine h.keep_open rfl ?_ (hrefuse.trans hrefused) ?_ nofun ?_
  · show _ = Connection.dispatched _
    rw [hdispatched]
    exact hrequests
  · rw [Connection.buffer_answer, Connection.inbound_answer, hbuffer, hinbound]
  · intro hs
    show (Phase.answering _ (x.answer t.shutdown.isRunning outcome).sequel).drains = false
    rw [hs]
    rcases x.answer_sequel outcome with hsequel | ⟨reason, hsequel, -⟩ <;> rw [hsequel] <;> rfl

/-- An answer that closes the connection does not do so for what the peer sends. -/
theorem Orderly.close_cases (ho : t.Orderly rules) {rest : Bytes} {reason : CloseReason}
    (hp : t.connection.phase = .answering rest (.close reason)) :
    reason = .notKeepAlive ∨ reason = .handlerTimeout ∨ reason = .handlerPanicked := by
  have hstands := ho.stands
  rw [hp] at hstands
  obtain ⟨-, -, hlast, -⟩ := hstands
  obtain ⟨a, ha, hsequel⟩ := Option.map_eq_some_iff.1 hlast
  obtain ⟨call, status, rfl⟩ := Ledger.mem_answers (List.mem_of_mem_getLast? ha)
  exact Exchange.answer_close hsequel

/-- What follows an answer. -/
theorem Taking.follow (h : t.Taking rules taken later) (ho : t.Orderly rules) {sequel : Sequel}
    (hp : t.connection.phase = .answering [] sequel) :
    (t.stepped dispatcher (Connection.follow rules t.now sequel
      { t.connection with served := t.connection.served + 1 })).Taking rules taken later := by
  have hrequests : taken.map (·.request) = t.connection.dispatched := by
    have hrequests := h.requests
    rw [hp] at hrequests
    exact hrequests
  let c : Connection := { t.connection with served := t.connection.served + 1 }
  cases sequel with
  | goOn =>
    refine h.keep_open rfl ?_ (Connection.refused_move c .idle) ?_ nofun fun _ => rfl
    · show _ = (c.move .idle).dispatched
      rw [Connection.dispatched_move]
      exact hrequests
    · show (c.move .idle).buffer.bytes ++ (c.move .idle).inbound.contents = _
      rw [Connection.buffer_move, Connection.inbound_move]
  | drain =>
    refine h.keep_open rfl ?_ (Connection.refused_move c .draining) ?_ nofun ?_
    · show _ = (c.move .draining).dispatched
      rw [Connection.dispatched_move]
      exact hrequests
    · show (c.move .draining).buffer.bytes ++ (c.move .draining).inbound.contents = _
      rw [Connection.buffer_move, Connection.inbound_move]
    · intro hs
      obtain ⟨hdrains, -⟩ := h.calm hs
      rw [hp] at hdrains
      cases hdrains
  | close reason =>
    have hclose := ho.close_cases hp
    have h' : { t with connection := c }.Taking rules taken later :=
      ⟨h.opens, h.within, h.requests, h.unread, h.waits, h.tooLarge, h.malformed, h.calm⟩
    have hfinish : ({ t with connection := c }.stepped dispatcher (c.finish reason)).Taking rules taken later := by
      refine h'.finish (Phase.takes_closed hrequests) ?_ ?_ ?_ ?_
      all_goals rcases hclose with rfl | rfl | rfl
      all_goals simp
    exact hfinish

/-- A step keeps to what the peer has sent. -/
theorem Taking.step (h : t.Taking rules taken later) (ho : t.Orderly rules) {table : Table}
    (hstep : t.connection.step (rules.withTable table) t.now t.shutdown = some c) :
    ∃ taken later, (t.stepped dispatcher c).Taking rules taken later := by
  have hrequests := h.requests
  have hstands := ho.stands
  cases Connection.step_advance hstep with
  | drain hp hs =>
    have hmap : taken.map (·.request) = t.connection.dispatched := by
      rcases hp with hp | hp
      all_goals
        rw [hp] at hrequests
        exact hrequests
    refine ⟨_, _, h.keep_open rfl ?_ (Connection.refused_move _ _) ?_ nofun ?_⟩
    · show _ = Connection.dispatched (Connection.move _ _)
      rw [Connection.dispatched_move]
      exact hmap
    · show (Connection.move _ _).buffer.bytes ++ (Connection.move _ _).inbound.contents = _
      rw [Connection.buffer_move, Connection.inbound_move]
    · intro hruns
      rw [hruns] at hs
      cases hs
  | wait hp hs found =>
    rw [hp] at hrequests
    exact ⟨_, _, h.keep_open rfl hrequests rfl rfl (fun _ => found) fun _ => rfl⟩
  | take hp hs found =>
    rw [hp] at hstands
    exact h.take hp hstands.2.1 found
  | refuse hp hs found =>
    rename_i fault reason
    rw [hp] at hrequests hstands
    refine ⟨_, _, h.refuse hrequests hstands.2.1 ?_⟩
    rcases Admission.refuse_cases found with ht | hm
    · rw [found] at ht
      cases ht
      exact .inl ⟨rfl, rfl⟩
    · rw [found] at hm
      cases hm
      exact .inr (.inl ⟨rfl, found⟩)
  | read hp hs found =>
    rw [hp] at hrequests
    exact ⟨_, _, h.keep_open rfl hrequests rfl t.connection.read_unread nofun fun _ => rfl⟩
  | giveUp hp hs found why =>
    have hwaits := h.waits
    rw [hp] at hrequests hwaits
    refine ⟨_, _, h.finish (Phase.takes_closed hrequests) (fun _ => hwaits trivial) ?_ ?_ ?_⟩
    all_goals rcases why with rfl | rfl
    all_goals simp
  | force hp hs =>
    have hprefix : t.connection.dispatched <+: taken.map (·.request) := by
      cases hphase : t.connection.phase with
      | dispatching request =>
        rw [hphase] at hrequests
        exact ⟨[request], hrequests.symm⟩
      | handling | answering =>
        rw [hphase] at hrequests
        exact (hrequests : _ = _) ▸ List.prefix_refl _
      | examining | reading | refusing | lingering | closed => rw [hphase] at hp; cases hp
    refine ⟨_, _, h.finish hprefix (fun he => he.elim nofun nofun) nofun nofun ?_⟩
    intro hruns
    rw [ShutdownState.isTerminated_of_isRunning hruns] at hs
    cases hs
  | answer hp hs plan =>
    rename_i request outcome
    rw [hp] at hrequests
    refine ⟨_, _, h.answer ?_ (Connection.refused_note_dispatched _ _) rfl rfl _ _⟩
    rw [Connection.dispatched_note_dispatched]
    exact hrequests
  | begin hp hs plan =>
    rename_i request reaction
    rw [hp] at hrequests
    refine ⟨_, _, h.keep_open rfl ?_ (Connection.refused_note_dispatched _ _) rfl nofun fun _ => rfl⟩
    show _ = (t.connection.note _).dispatched
    rw [Connection.dispatched_note_dispatched]
    exact hrequests
  | conclude hp hs =>
    rw [hp] at hrequests
    exact ⟨_, _, h.answer hrequests rfl rfl rfl _ _⟩
  | follow hp hs => exact ⟨_, _, h.follow ho hp⟩
  | breakOff hp more closed =>
    rw [hp] at hrequests
    exact ⟨_, _, h.finish (Phase.takes_closed hrequests) (fun he => he.elim nofun nofun) nofun nofun
      fun _ => ⟨nofun, nofun⟩⟩
  | write hp more hs room =>
    rename_i rest sequel
    have hcalm := h.calm
    rw [hp] at hrequests hcalm
    refine ⟨_, _, h.keep_open rfl hrequests rfl rfl nofun fun hruns => ?_⟩
    exact (Phase.drains_answering _ rest sequel).trans (hcalm hruns).1
  | dismiss hp done =>
    rename_i rest reason
    have htooLarge := h.tooLarge
    have hmalformed := h.malformed
    have hcalm := h.calm
    rw [hp] at hrequests htooLarge hmalformed hcalm hstands
    obtain ⟨-, ⟨bytes, -, hrefuses⟩, -⟩ := hstands
    refine ⟨_, _, h.finish (Phase.takes_closed hrequests) ?_ ?_ ?_ ?_⟩
    · rintro (rfl | rfl)
      all_goals cases hrefuses
    · rintro rfl
      exact htooLarge rfl
    · rintro rfl
      exact hmalformed rfl
    · intro hruns
      obtain ⟨-, hdrained, hforced⟩ := hcalm hruns
      exact ⟨fun he => hdrained (congrArg some he), fun he => hforced (congrArg some he)⟩
  | writeRefusal hp =>
    have htooLarge := h.tooLarge
    have hmalformed := h.malformed
    have hcalm := h.calm
    rw [hp] at hrequests htooLarge hmalformed hcalm
    exact ⟨_, _, h.keep hrequests (fun hrefused => ⟨hrefused, rfl⟩) nofun htooLarge hmalformed hcalm⟩
  | linger hp =>
    have hcalm := h.calm
    have hphase : t.connection.read.phase = t.connection.phase := rfl
    rw [hp] at hphase hrequests hcalm
    refine ⟨_, _, h.keep_open ?_ ?_ rfl t.connection.read_unread ?_ ?_⟩
    all_goals rw [hphase]
    · rfl
    · exact hrequests
    · nofun
    · exact fun hruns => (hcalm hruns).1
  | leave hp found =>
    have hcalm := h.calm
    rw [hp] at hrequests hcalm
    refine ⟨_, _, h.finish (Phase.takes_closed hrequests) (fun he => he.elim nofun nofun) nofun nofun ?_⟩
    intro hruns
    cases (hcalm hruns).1
  | turnAway hp found =>
    have hcalm := h.calm
    rw [hp] at hrequests hcalm hstands
    refine ⟨_, _, h.refuse hrequests hstands.2.1 (.inr (.inr ⟨rfl, ?_⟩))⟩
    rw [← Bool.not_eq_true]
    intro hruns
    cases (hcalm hruns).1

theorem Taking.move (h : t.Taking rules taken later) (ho : t.Orderly rules) (hm : Move rules t u) :
    ∃ taken later, u.Taking rules taken later := by
  cases hm with
  | step table hstep => exact h.step ho hstep
  | send piece hopen =>
    refine ⟨taken, later ++ piece, h.opens.append piece, h.within, h.requests, ?_, h.waits, h.tooLarge, ?_, h.calm⟩
    · intro hrefused
      show t.connection.buffer.bytes ++ (Pipe.send _ _).contents = _
      rw [Pipe.contents_send hopen, ← List.append_assoc, h.unread hrefused]
    · intro hreason
      obtain ⟨b, hb, hmalformed⟩ := h.malformed hreason
      exact ⟨b, hb.trans (List.prefix_append _ _), hmalformed⟩
  | endSending =>
    exact ⟨_, _, h.opens, h.within, h.requests, h.unread, h.waits, h.tooLarge, h.malformed, h.calm⟩
  | hangUp => exact ⟨_, _, h.opens, h.within, h.requests, h.unread, h.waits, h.tooLarge, h.malformed, h.calm⟩
  | receive most =>
    exact ⟨_, _, h.opens, h.within, h.requests, h.unread, h.waits, h.tooLarge, h.malformed, h.calm⟩
  | pass ms => exact ⟨_, _, h.opens, h.within, h.requests, h.unread, h.waits, h.tooLarge, h.malformed, h.calm⟩
  | shutDown next begun unended counted =>
    refine ⟨_, _, h.opens, h.within, h.requests, h.unread, h.waits, h.tooLarge, h.malformed, ?_⟩
    intro hruns
    cases next with
    | running => exact absurd rfl begun
    | draining deadline => cases hruns
    | terminated => cases hruns
  | reserve capacity gap =>
    exact ⟨_, _, h.opens, h.within, h.requests, h.unread, h.waits, h.tooLarge, h.malformed, h.calm⟩

theorem Run.taking (hrun : Run rules t u) (ho : t.Orderly rules) (h : ∃ taken later, t.Taking rules taken later) :
    ∃ taken later, u.Taking rules taken later := by
  induction hrun with
  | refl => exact h
  | move before next ih =>
    obtain ⟨taken, later, h⟩ := ih
    exact h.move (before.orderly ho) next

/-! ## What becomes of a request that is too large -/

/-- The connection has refused a request that is too large; nothing of the refusal has been written yet. -/
structure Refused (t u : Lifetime) : Prop where
  phase : u.connection.phase = .refusing sizeRefusal .payloadTooLarge
  refused : u.connection.refused = t.connection.refused ++ [sizeRefusal]
  outbound : u.connection.outbound = t.connection.outbound
  received : u.received = t.received

/-- A beginning of a request that is too large is refused at once, or the rest is waited for. -/
theorem run_examine (rules : ConnectionRules) {deadline : Nat} (hp : t.connection.phase = .examining deadline)
    (hs : t.shutdown.isRunning = true)
    (hexceeds : Request.Exceeds rules.maxRequestBytes t.connection.buffer.bytes) :
    (∃ u, Run rules t u ∧ t.Refused u) ∨
      t.connection.buffer.bytes.length ≤ rules.maxRequestBytes ∧
        Run rules t { t with connection := { t.connection with phase := .reading deadline } } := by
  rcases Admission.ofBuffer_of_exceeds hexceeds with hwait | htooLarge
  · have hstep : t.connection.step rules t.now t.shutdown =
        some { t.connection with phase := .reading deadline } := by
      rw [Connection.step, hp]
      simp [Connection.examine, hs, hwait]
    exact .inr ⟨Admission.length_le_of_wait hwait, Run.quietly hstep (Connection.quiet_of_works rfl)⟩
  · have hstep : t.connection.step rules t.now t.shutdown =
        some (t.connection.refuse .payloadTooLarge Status.payloadTooLarge.reason .payloadTooLarge) := by
      rw [Connection.step, hp]
      simp [Connection.examine, hs, htooLarge, Admission.tooLarge]
    exact .inl ⟨_, Run.quietly hstep (Connection.quiet_of_works rfl), rfl, Connection.refused_note_refused _ _, rfl,
      rfl⟩

/-- A connection that waits for a request that is too large reads until it refuses it. -/
theorem run_refuse (t : Lifetime) {deadline : Nat} (hp : t.connection.phase = .reading deadline)
    (hs : t.shutdown.isRunning = true) (hflows : t.connection.inbound.Flows)
    (hle : t.connection.buffer.bytes.length ≤ rules.maxRequestBytes)
    (hexceeds : Request.Exceeds rules.maxRequestBytes
      (t.connection.buffer.bytes ++ t.connection.inbound.contents))
    (hlt : rules.maxRequestBytes < (t.connection.buffer.bytes ++ t.connection.inbound.contents).length) :
    ∃ u, Run rules t u ∧ t.Refused u := by
  have hbytes : t.connection.inbound.bytes ≠ [] := by
    intro hnone
    rw [hflows.contents_eq_nil hnone, List.append_nil] at hlt
    omega
  let v : Lifetime := { t with connection := t.connection.read.await rules t.now }
  have hv : Run rules t v := run_read rules hp hs hbytes
  have hback : ∀ {u}, v.Refused u → t.Refused u := fun h => ⟨h.phase, h.refused, h.outbound, h.received⟩
  have hgrows : t.connection.buffer.bytes.length < v.connection.buffer.bytes.length :=
    t.connection.length_read hbytes
  rw [← t.connection.read_unread] at hexceeds hlt
  rcases run_examine rules (t := v) rfl hs hexceeds.of_append with ⟨u, hu, h⟩ | ⟨hle', hwait⟩
  · exact ⟨u, hv.trans hu, hback h⟩
  · let w : Lifetime :=
      { v with connection := { v.connection with phase := .reading (t.now + rules.idleTimeout) } }
    obtain ⟨u, hu, h⟩ := run_refuse w rfl hs (hflows.read _) hle' hexceeds hlt
    exact ⟨u, (hv.trans hwait).trans hu, hback ⟨h.phase, h.refused, h.outbound, h.received⟩⟩
termination_by rules.maxRequestBytes + 1 - t.connection.buffer.bytes.length
decreasing_by
  show rules.maxRequestBytes + 1 - v.connection.buffer.bytes.length < _
  omega

/-- A refusal is written while the peer reads, and the connection ends. -/
theorem run_dismiss (rules : ConnectionRules) (t : Lifetime) (rest : Bytes) {reason : CloseReason}
    (hp : t.connection.phase = .refusing rest reason) (hw : t.connection.outbound.waiting = [])
    (hopen : t.connection.outbound.closed = false) (hcapacity : 0 < t.connection.outbound.capacity) :
    ∃ u, Run rules t u ∧ u.connection.phase = .closed reason ∧ u.connection.refused = t.connection.refused ∧
      u.sent = t.sent ∧ u.written = t.written ++ rest := by
  cases hrest : rest with
  | nil =>
    have hstep : t.connection.step rules t.now t.shutdown = some (t.connection.finish reason) := by
      rw [Connection.step, hp, hrest]
      rfl
    exact ⟨_, Run.quietly hstep (Connection.quiet_of_works rfl), rfl, Connection.refused_move _ _, rfl,
      (List.append_nil _).symm⟩
  | cons b bs =>
    -- the peer takes what it was sent, so that the pipe is empty
    let most := t.connection.outbound.bytes.length
    have hread : t.connection.outbound.read most =
        (t.connection.outbound.bytes, { t.connection.outbound with bytes := [] }) := by
      rw [Pipe.read_of_waiting hw, List.take_length, List.drop_length]
    let v : Lifetime := { t with
      connection := { t.connection with outbound := { t.connection.outbound with bytes := [] } }
      received := t.received ++ t.connection.outbound.bytes }
    have hv : Run rules t v := by
      have hmove : Move rules t { t with
          connection := { t.connection with outbound := (t.connection.outbound.read most).2 }
          received := t.received ++ (t.connection.outbound.read most).1 } := .receive most
      rw [hread] at hmove
      exact Run.refl.move hmove
    let d : Connection := { v.connection with
      phase := .refusing (rest.drop t.connection.outbound.capacity) reason
      outbound := { t.connection.outbound with bytes := rest.take t.connection.outbound.capacity } }
    have hstep : v.connection.step rules v.now v.shutdown = some d := by
      have hphase : v.connection.phase = .refusing rest reason := hp
      have hclosed : v.connection.outbound.closed = false := hopen
      have hroom : v.connection.outbound.room = t.connection.outbound.capacity := rfl
      rw [Connection.step, hphase]
      show v.connection.writeRefusal rest reason = some d
      rw [Connection.writeRefusal, if_neg (by simp [hrest, hclosed]), if_neg (by rw [hroom]; omega)]
      rfl
    obtain ⟨u, hu, hphase, hrefused, hsent, hwritten⟩ := run_dismiss rules { v with connection := d }
      (rest.drop t.connection.outbound.capacity) rfl hw hopen hcapacity
    have hwrite : Run rules v { v with connection := d } := Run.quietly hstep (Connection.quiet_of_works rfl)
    refine ⟨u, (hv.trans hwrite).trans hu, hphase, hrefused, hsent, ?_⟩
    rw [hwritten, ← hrest]
    show t.received ++ t.connection.outbound.bytes ++ rest.take _ ++ rest.drop _ = _
    rw [List.append_assoc, List.take_append_drop]
    rfl
termination_by rest.length
decreasing_by
  rw [hrest, List.length_drop, List.length_cons]
  omega

/-- A request that is too large is refused as such, unless a shutdown refuses it. -/
theorem Taking.refused_of_exceeds (h : t.Taking rules taken later) (ho : t.Orderly rules)
    (hexceeds : Request.Exceeds rules.maxRequestBytes later) : t.connection.refused = [] ∨
      t.connection.refused = [sizeRefusal] ∧ t.connection.phase.reason? = some .payloadTooLarge ∨
      t.connection.refused = [drainRefusal] ∧ t.connection.phase.reason? = some .drained := by
  have hreason : ∀ {reason bytes}, t.connection.phase.reason? = some reason → Refuses reason bytes →
      t.connection.refused = [bytes] →
        t.connection.refused = [sizeRefusal] ∧ t.connection.phase.reason? = some .payloadTooLarge ∨
        t.connection.refused = [drainRefusal] ∧ t.connection.phase.reason? = some .drained := by
    intro reason bytes hreason hrefuses hbytes
    cases hrefuses with
    | drained => exact .inr ⟨hbytes, hreason⟩
    | badRequest => exact absurd (h.malformed hreason) (Admission.not_malformed_of_exceeds hexceeds)
    | payloadTooLarge => exact .inl ⟨hbytes, hreason⟩
  have hstands := ho.stands
  cases hp : t.connection.phase with
  | examining | reading | dispatching | answering | lingering =>
    rw [hp] at hstands
    exact .inl hstands.2.1
  | handling =>
    rw [hp] at hstands
    exact .inl hstands.2.1
  | refusing rest reason =>
    rw [hp] at hstands hreason
    obtain ⟨-, ⟨bytes, hbytes, hrefuses⟩, -⟩ := hstands
    exact .inr (hreason rfl hrefuses hbytes)
  | closed reason =>
    rw [hp] at hstands hreason
    have hover : t.ledger.Over rules reason := hstands
    refine hover.refused.imp_right ?_
    rintro ⟨bytes, hbytes, hrefuses, -⟩
    exact hreason rfl hrefuses hbytes

/-- While no shutdown has begun, and after answers that keep it, a connection does not end but for the request that is
too large, or because the peer does not send enough of it. -/
theorem Taking.ends_of_exceeds (h : t.Taking rules taken later) (ho : t.Orderly rules)
    (hexceeds : Request.Exceeds rules.maxRequestBytes later) (hruns : t.shutdown.isRunning = true)
    (hserved : t.connection.served = t.connection.dispatched.length)
    (hkept : ∀ a ∈ (t.answers rules).getLast?, a.sequel = .goOn) {reason : CloseReason}
    (hp : t.connection.phase = .closed reason) :
    reason = .payloadTooLarge ∧ t.connection.refused = [sizeRefusal] ∨ t.connection.phase.Waits := by
  have hstands := ho.stands
  rw [hp] at hstands
  have hover : t.ledger.Over rules reason := hstands
  have hall : t.ledger.served = (t.ledger.answers rules).length := by
    have hanswers : (t.ledger.answers rules).length = t.ledger.sampled.length :=
      Ledger.length_answers hover.sampled_le
    have hcalls := congrArg List.length ho.calls
    rw [List.length_map] at hcalls
    have hle := hover.served_le
    have hsampled := hover.sampled_le
    have hserved' : t.ledger.served = t.ledger.calls.length := hserved.trans hcalls.symm
    omega
  have hreason : t.connection.phase.reason? = some reason := by
    rw [hp]
    rfl
  obtain ⟨-, hdrained, hforced⟩ := h.calm hruns
  rcases hover.kept hkept hall with rfl | rfl | rfl | ⟨bytes, hrefuses⟩
  · exact .inr (by rw [hp]; trivial)
  · exact .inr (by rw [hp]; trivial)
  · exact absurd hreason hforced
  · cases hrefuses with
    | drained => exact absurd hreason hdrained
    | badRequest => exact absurd (h.malformed hreason) (Admission.not_malformed_of_exceeds hexceeds)
    | payloadTooLarge => exact .inl ⟨rfl, h.tooLarge hreason⟩

/-- When more of a request that is too large has come than the limit allows, the connection refuses it and ends. -/
theorem Taking.refuses (h : t.Taking rules taken later) (ho : t.Orderly rules)
    (hexceeds : Request.Exceeds rules.maxRequestBytes later) (hruns : t.shutdown.isRunning = true) {deadline : Nat}
    (hp : t.connection.phase = .examining deadline ∨ t.connection.phase = .reading deadline)
    (hflows : t.connection.inbound.Flows) (hopen : t.connection.outbound.closed = false)
    (hcapacity : 0 < t.connection.outbound.capacity) (hlt : rules.maxRequestBytes < later.length) :
    ∃ u, Run rules t u ∧ u.connection.phase = .closed .payloadTooLarge ∧ u.connection.refused = [sizeRefusal] ∧
      u.written = t.written ++ sizeRefusal := by
  have hstands := ho.stands
  have hrefused : t.connection.refused = [] := by
    rcases hp with hp | hp
    all_goals
      rw [hp] at hstands
      exact hstands.2.1
  have hunread := h.unread hrefused
  rw [← hunread] at hexceeds hlt
  obtain ⟨v, hv, hrefuses⟩ : ∃ v, Run rules t v ∧ t.Refused v := by
    rcases hp with hp | hp
    · rcases run_examine rules hp hruns hexceeds.of_append with hrefuses | ⟨hle, hwait⟩
      · exact hrefuses
      · let v : Lifetime := { t with connection := { t.connection with phase := .reading deadline } }
        obtain ⟨u, hu, hrefuses⟩ := run_refuse v rfl hruns hflows hle hexceeds hlt
        exact ⟨u, hwait.trans hu, hrefuses.phase, hrefuses.refused, hrefuses.outbound, hrefuses.received⟩
    · have hwaits := h.waits
      rw [hp] at hwaits
      exact run_refuse t hp hruns hflows (Admission.length_le_of_wait (hwaits trivial)) hexceeds hlt
  obtain ⟨u, hu, hclosed, hrefused', -, hwritten⟩ := run_dismiss rules v sizeRefusal hrefuses.phase
    (hrefuses.outbound ▸ ho.waiting) (hrefuses.outbound ▸ hopen) (hrefuses.outbound ▸ hcapacity)
  refine ⟨u, hv.trans hu, hclosed, ?_, ?_⟩
  · rw [hrefused', hrefuses.refused, hrefused]
    rfl
  · rw [hwritten, Lifetime.written, Lifetime.written, hrefuses.received, hrefuses.outbound]

/-- Whatever a peer sends, in whatever pieces, however handlers end and whenever a shutdown begins: the requests that are
dispatched are the first ones of what the peer has sent, and each of them that has a body takes, with its head, its size
lines and its trailers, no more bytes than the limit allows. A request with a body that is larger is not taken: while it
is the next one nothing is refused but for its size or because of a shutdown; a connection that has answered all
requests before it, and kept to the answers, ends for its size or with no more of it read than the limit; and when more
of it than the limit has been sent, the connection refuses it, tells so while the peer reads, and ends. -/
theorem sizes_of_run {id : ConnectionId} {capacity now : Nat} (h : Run rules (start rules id capacity now) t) :
    ∃ taken later, Request.Opens t.sent taken later ∧ t.sent = taken.flatMap (·.bytes) ++ later ∧
      t.connection.phase.Takes t.connection.dispatched (taken.map (·.request)) ∧
      (∀ p ∈ taken, p.Within rules.maxRequestBytes) ∧
      (t.connection.phase.Waits → t.connection.buffer.bytes.length ≤ rules.maxRequestBytes) ∧
      (Request.Exceeds rules.maxRequestBytes later →
        (t.connection.refused = [] ∨
          t.connection.refused = [sizeRefusal] ∧ t.connection.phase.reason? = some .payloadTooLarge ∨
          t.connection.refused = [drainRefusal] ∧ t.connection.phase.reason? = some .drained) ∧
        (t.shutdown.isRunning = true → t.connection.served = t.connection.dispatched.length →
          (∀ a ∈ (t.answers rules).getLast?, a.sequel = .goOn) → ∀ reason, t.connection.phase = .closed reason →
            reason = .payloadTooLarge ∧ t.connection.refused = [sizeRefusal] ∨ t.connection.phase.Waits) ∧
        (t.shutdown.isRunning = true → ∀ deadline,
          t.connection.phase = .examining deadline ∨ t.connection.phase = .reading deadline →
          0 < capacity → t.connection.inbound.cutsOff = false → t.connection.outbound.closed = false →
          rules.maxRequestBytes < later.length →
            ∃ u, Run rules t u ∧ u.connection.phase = .closed .payloadTooLarge ∧
              u.connection.refused = [sizeRefusal] ∧ u.written = t.written ++ sizeRefusal)) := by
  have ho := h.orderly (orderly_start id capacity now)
  have hpiped := h.piped (piped_start rules id capacity now)
  obtain ⟨taken, later, ht⟩ := h.taking (orderly_start id capacity now) ⟨_, _, taking_start id capacity now⟩
  refine ⟨taken, later, ht.opens, ht.opens.stream_eq, ht.requests, ht.within, ?_, ?_⟩
  · intro hwaits
    exact Admission.length_le_of_wait (ht.waits hwaits)
  · intro hexceeds
    refine ⟨ht.refused_of_exceeds ho hexceeds, ?_, ?_⟩
    · intro hruns hserved hkept reason hp
      exact ht.ends_of_exceeds ho hexceeds hruns hserved hkept hp
    · intro hruns deadline hp hcapacity hcut hopen hlt
      have hflows : t.connection.inbound.Flows := by
        cases hclosed : t.connection.inbound.closed with
        | false => exact .inr ⟨hclosed, hpiped.settled hclosed, hpiped.inbound ▸ hcapacity⟩
        | true =>
          rw [Pipe.cutsOff, hclosed, Bool.true_and] at hcut
          exact .inl (by simpa using hcut)
      exact ht.refuses ho hexceeds hruns hp hflows hopen (hpiped.outbound ▸ hcapacity) hlt

/-- The head of a request that announces a body has more bytes than the limit allows. -/
theorem sizes_of_long_head :
    let rules : ConnectionRules := ⟨⟨.empty, ⟨0⟩⟩, 10, 16, false, Gzip.gzip⟩
    ∃ t, Run rules (start rules ⟨1⟩ 64 0) t ∧ t.connection.phase = .closed .payloadTooLarge ∧
      t.written = sizeRefusal := by
  intro rules
  let b := Bytes.ofText "PUT / HTTP/1.1\r\nContent-Length: 5\r\n\r\n"
  have hexceeds : Request.Exceeds 16 b :=
    ⟨Bytes.ofText "hello", { Request.new .put "/" with
      headers := ⟨[("Content-Length", "5")]⟩, body := Bytes.ofText "hello" }, [], .length 5, by decide, by decide,
      nofun, by decide⟩
  let t := start rules ⟨1⟩ 64 0
  have hrun : Run rules t { t with
      connection := { t.connection with inbound := t.connection.inbound.send b }, sent := b } :=
    Run.refl.move (.send b rfl)
  obtain ⟨taken, later, -, hsent, htakes, -, -, hlarge⟩ := sizes_of_run hrun
  -- nothing has been taken yet
  obtain rfl : taken = [] := List.map_eq_nil_iff.1 htakes
  have hlater : later = b := hsent.symm
  obtain ⟨-, -, hrefuses⟩ := hlarge (hlater ▸ hexceeds)
  obtain ⟨u, hu, hclosed, -, hwritten⟩ := hrefuses rfl 10 (.inl rfl) (by decide) rfl rfl (by rw [hlater]; decide)
  exact ⟨u, hrun.trans hu, hclosed, hwritten⟩

/-- A request without a body is dispatched though it is larger than the limit, and so is one with chunks that has the
limit and two bytes. -/
theorem sizes_beyond_limit :
    (let rules : ConnectionRules := ⟨⟨.empty, ⟨0⟩⟩, 10, 16, false, Gzip.gzip⟩
    ∃ t p, Run rules (start rules ⟨1⟩ 64 0) t ∧ Request.Opens t.sent [p] [] ∧ t.connection.dispatched = [p.request] ∧
      rules.maxRequestBytes < p.bytes.length) ∧
    (let rules : ConnectionRules := ⟨⟨.empty, ⟨0⟩⟩, 10, 50, false, Gzip.gzip⟩
    ∃ t p, Run rules (start rules ⟨1⟩ 64 0) t ∧ Request.Opens t.sent [p] [] ∧ t.connection.dispatched = [p.request] ∧
      p.request.framing = .ok .chunked ∧ rules.maxRequestBytes < p.bytes.length) := by
  have hdispatches : ∀ (limit : Nat) (p : Portion), p.bytes ≠ [] → p.bytes.length ≤ 64 →
      Admission.ofBuffer limit p.bytes = .serve p.request [] →
        let rules : ConnectionRules := ⟨⟨.empty, ⟨0⟩⟩, 10, limit, false, Gzip.gzip⟩
        ∃ t, Run rules (start rules ⟨1⟩ 64 0) t ∧
          Request.Opens t.sent [p] [] ∧ t.connection.dispatched = [p.request] := by
    intro limit p hne hle hserve rules
    obtain ⟨t, hrun, hsent, -, -, hdispatched⟩ := run_answer rules ⟨1⟩ 64 0 hne hle hserve
      (Dispatcher.plan_of_empty _ _)
    refine ⟨t, hrun, ?_, hdispatched⟩
    have hfront : Request.front? (p.bytes ++ []) = some (p.request, []) := by
      rw [List.append_nil]
      exact Admission.front?_of_serve hserve
    have hstart : Request.Opens (p.bytes ++ []) [] (p.bytes ++ []) := .start
    rw [hsent, ← List.append_nil p.bytes]
    exact hstart.take hfront
  constructor
  · let p : Portion := ⟨.new .get "/", Bytes.ofText "GET / HTTP/1.1\r\n\r\n"⟩
    have hparse : Request.parse p.bytes = .ok (p.request, []) := by decide
    obtain ⟨t, hrun, hopens, hdispatched⟩ := hdispatches 16 p (by decide) (by decide)
      (Admission.ofBuffer_eq_serve_iff.2 ⟨_, _, .empty, [], hparse, by decide, rfl, rfl⟩)
    exact ⟨t, p, hrun, hopens, hdispatched, by decide⟩
  · let p : Portion :=
      ⟨{ Request.new .post "/" with headers := ⟨[("Transfer-Encoding", "chunked")]⟩ },
        Bytes.ofText "POST / HTTP/1.1\r\nTransfer-Encoding: chunked\r\n\r\n0\r\n\r\n"⟩
    have hparse : Request.parse p.bytes = .ok (p.request, Bytes.ofText "0\r\n\r\n") := by decide
    have hdecode : Chunked.decode 3 (Bytes.ofText "0\r\n\r\n") = .ok (some ([], [])) := by
      refine Chunked.chunks_eq_some_iff.2 (.inl ⟨Bytes.crlf, ?_, ?_⟩)
      · rfl
      · rfl
    obtain ⟨t, hrun, hopens, hdispatched⟩ := hdispatches 50 p (by decide) (by decide)
      (Admission.ofBuffer_eq_serve_iff.2 ⟨_, _, .chunked, [], hparse, by decide, hdecode, rfl⟩)
    exact ⟨t, p, hrun, hopens, hdispatched, by decide, by decide⟩

end Lifetime

end Hypertext
