/-
The service that runs, with its tasks and its timers, is a server at work: whatever is done with it, its connections, its
coordinator and its requests are those of some run of single steps in which anything may come before anything else. So
what holds of all servers, and of all lifetimes of connections, holds of it.
-/
import Hypertext.Proofs.Server.Operation
import Hypertext.Proofs.Server.Waiting
import Hypertext.Proofs.Shutdown.Registry
import Hypertext.Server.Service
import Mathlib.Data.List.Basic

namespace Hypertext

namespace Connection

variable {rules : ConnectionRules} {now : Nat} {status : ShutdownState} {c : Connection}

theorem isClosed_iff : c.isClosed = true ↔ ∃ reason, c.phase = .closed reason := by
  unfold isClosed
  split <;> simp_all

/-- A connection that has ended stays as it is. -/
theorem run_of_closed (h : c.isClosed = true) : c.run rules now status = c := by
  obtain ⟨reason, hp⟩ := isClosed_iff.1 h
  have hstep : c.step rules now status = none := by rw [step, hp]
  rw [run]
  generalize 8 * (_ + 2) = n
  cases n with
  | zero => rfl
  | succ n => rw [runSteps, hstep]

end Connection

namespace Operation

variable {rules : ConnectionRules} {o : Operation} {i k : Nat} {m : Member}

/-- A connection takes some steps. -/
theorem run_steps (rules : ConnectionRules) (hm : o.members[i]? = some m) (n : Nat) :
    ∃ m', Run rules o { o with members := o.members.set i m' } ∧ m'.registered = m.registered ∧
      m'.life.connection = m.life.connection.runSteps rules o.traffic.now o.traffic.coordinator.state n := by
  induction n generalizing o m with
  | zero =>
    obtain ⟨hi, hget⟩ := List.getElem?_eq_some_iff.1 hm
    refine ⟨m, ?_, rfl, rfl⟩
    rw [← hget, List.set_getElem_self]
    exact .refl
  | succ n ih =>
    rw [Connection.runSteps]
    cases hs : m.life.connection.step rules o.traffic.now o.traffic.coordinator.state with
    | none =>
      obtain ⟨hi, hget⟩ := List.getElem?_eq_some_iff.1 hm
      refine ⟨m, ?_, rfl, rfl⟩
      rw [← hget, List.set_getElem_self]
      exact .refl
    | some next =>
      let life := (m.seen o.traffic).stepped rules.dispatcher next
      have hlive : Move rules o { o with members := o.members.set i { m with life } } :=
        .live i hm (.step rules.dispatcher.table hs) rfl rfl
      obtain ⟨hi, -⟩ := List.getElem?_eq_some_iff.1 hm
      obtain ⟨m', hrun, hregistered, hconnection⟩ := ih (o := { o with members := o.members.set i { m with life } })
        (List.getElem?_set_self hi)
      rw [List.set_set] at hrun
      exact ⟨m', (Run.refl.move hlive).trans hrun, hregistered, hconnection⟩

/-- A request to shut down goes on until it has to wait, while no answer is written. -/
theorem run_call (rules : ConnectionRules) {call : ShutdownCall} (hk : o.traffic.calls[k]? = some call)
    (hsettled : ∀ m ∈ o.members, ∀ sequel, m.life.connection.phase ≠ .answering [] sequel) :
    Run rules o { o with
      traffic := { o.traffic with
        coordinator := (call.run o.traffic.now o.traffic.coordinator).2
        calls := o.traffic.calls.set k (call.run o.traffic.now o.traffic.coordinator).1 } } := by
  obtain ⟨hlt, hcall⟩ := List.getElem?_eq_some_iff.1 hk
  refine Coordinator.serve_keeps (P := fun call c => Run rules o { o with
    traffic := { o.traffic with coordinator := c, calls := o.traffic.calls.set k call } }) ?_ _ call _ ?_
  · exact fun c call next d hrun hstep =>
      hrun.move (.coordinate (.call k) (Traffic.step_call_set hlt hstep) rfl (.inr hsettled))
  · rw [← hcall, List.set_getElem_self]
    exact .refl

end Operation

/-! ## The service -/

namespace Service

/-- A server at work is at some time as the service has it; a connection holds its guard until it has ended, and nobody
waits with an answer that has been written. -/
structure Follows (now : Nat) (s : Service) (o : Operation) : Prop where
  now : o.traffic.now = now
  coordinator : o.traffic.coordinator = s.coordinator
  calls : o.traffic.calls = s.calls
  connections : o.members.map (·.life.connection) = s.connections
  held : ∀ m ∈ o.members, m.registered = !m.life.connection.isClosed
  settled : ∀ m ∈ o.members, ∀ sequel, m.life.connection.phase ≠ .answering [] sequel
  idle : o.traffic.pending = 0

/-- The service is as a server at work can be. -/
def Simulated (rules : ConnectionRules) (now : Nat) (s : Service) : Prop :=
  s.rules = rules ∧ ∃ o, Operation.Run rules .start o ∧ s.Follows now o

variable {rules : ConnectionRules} {now later i k : Nat} {s : Service} {c : Connection}

theorem Simulated.pass (h : s.Simulated rules now) (hle : now ≤ later) : s.Simulated rules later := by
  obtain ⟨hrules, o, hrun, hf⟩ := h
  refine ⟨hrules, { o with traffic := { o.traffic with now := o.traffic.now + (later - now) } },
    hrun.move (.coordinate (.pass (later - now)) rfl rfl (.inl rfl)), ?_⟩
  refine ⟨?_, hf.coordinator, hf.calls, hf.connections, hf.held, hf.settled, hf.idle⟩
  show o.traffic.now + (later - now) = later
  rw [hf.now]
  omega

/-- A connection of the service is one of the server. -/
theorem Follows.member {o : Operation} (h : s.Follows now o) (hc : s.connections[i]? = some c) :
    ∃ m, o.members[i]? = some m ∧ m.life.connection = c := by
  rw [← h.connections, List.getElem?_map] at hc
  exact Option.map_eq_some_iff.1 hc

/-- One connection of the server is put in the place of another. -/
theorem Follows.set {o : Operation} (h : s.Follows now o) (i : Nat) (m' : Member)
    (hheld : m'.registered = !m'.life.connection.isClosed)
    (hsettled : ∀ sequel, m'.life.connection.phase ≠ .answering [] sequel) :
    { s with connections := s.connections.set i m'.life.connection }.Follows now
      { o with members := o.members.set i m' } := by
  refine ⟨h.now, h.coordinator, h.calls, ?_, ?_, ?_, h.idle⟩
  · show (o.members.set i m').map _ = s.connections.set i _
    rw [List.map_set, h.connections]
  · intro m hm
    rcases List.mem_or_eq_of_mem_set hm with hm | rfl
    · exact h.held m hm
    · exact hheld
  · intro m hm
    rcases List.mem_or_eq_of_mem_set hm with hm | rfl
    · exact h.settled m hm
    · exact hsettled

/-- A request goes on. -/
theorem Simulated.callOn (h : s.Simulated rules now) {call : ShutdownCall} (hk : s.calls[k]? = some call) :
    { s with
      coordinator := (call.run now s.coordinator).2
      calls := s.calls.set k (call.run now s.coordinator).1 }.Simulated rules now := by
  obtain ⟨rfl, o, hrun, hf⟩ := h
  have hcall := Operation.run_call s.rules (hf.calls ▸ hk) hf.settled
  refine ⟨rfl, _, hrun.trans hcall, hf.now, ?_, ?_, hf.connections, hf.held, hf.settled, hf.idle⟩
  · show (call.run o.traffic.now o.traffic.coordinator).2 = _
    rw [hf.now, hf.coordinator]
  · show o.traffic.calls.set k (call.run o.traffic.now o.traffic.coordinator).1 = _
    rw [hf.now, hf.coordinator, hf.calls]

/-- A connection goes on, and gives back its guard if it has ended by that. -/
theorem Simulated.goOn (h : s.Simulated rules now) (hc : s.connections[i]? = some c) {next : Connection}
    (hnext : next = c.run s.rules now s.coordinator.state) :
    (if next.isClosed && !c.isClosed then
      { s with connections := s.connections.set i next, coordinator := s.coordinator.release }
    else { s with connections := s.connections.set i next }).Simulated rules now := by
  obtain ⟨rfl, o, hrun, hf⟩ := h
  obtain ⟨m, hm, rfl⟩ := hf.member hc
  obtain ⟨m', hsteps, hregistered, hconnection⟩ := Operation.run_steps s.rules hm
    (8 * (m.life.connection.inbound.bytes.length + m.life.connection.inbound.waiting.length +
      m.life.connection.buffer.bytes.length + 2))
  have hm' : m'.life.connection = next := by
    rw [hconnection, hnext, hf.now, hf.coordinator, Connection.run]
  have hheld : m'.registered = !m.life.connection.isClosed :=
    hregistered.trans (hf.held m (List.mem_of_getElem? hm))
  have hsettled : ∀ sequel, m'.life.connection.phase ≠ .answering [] sequel := by
    rw [hm', hnext]
    exact Connection.not_answered_of_waits (Connection.waits_run _ _ _ _)
  have hrun' := hrun.trans hsteps
  obtain ⟨hi, -⟩ := List.getElem?_eq_some_iff.1 hm
  split
  · next hends =>
    rw [Bool.and_eq_true, ← hm'] at hends
    obtain ⟨hclosed, hopen⟩ := hends
    have hplace : (o.members.set i m')[i]? = some m' := List.getElem?_set_self hi
    -- there is a guard to be given back, the one of this connection
    have hpos : 0 < o.traffic.guards := by
      have hproper : Operation.Proper s.rules { o with members := o.members.set i m' } :=
        Operation.proper_start.run hrun'
      rw [show o.traffic.guards = _ from hproper.held]
      exact List.countP_pos_iff.2 ⟨m', List.mem_of_getElem? hplace, hheld.trans hopen⟩
    have hleave := hrun'.move (.leave i hplace (Connection.isClosed_iff.1 hclosed) (hheld.trans hopen) (if_pos hpos))
    rw [List.set_set] at hleave
    have hfollows := hf.set i { m' with registered := false } (by rw [hclosed]; rfl) hsettled
    rw [← hm']
    refine ⟨rfl, _, hleave, hf.now, ?_, hf.calls, hfollows.connections, hfollows.held, hfollows.settled, hf.idle⟩
    rw [← hf.coordinator]
  · next hends =>
    -- the connection goes on, or had ended before and has given its guard back then
    rw [← hm'] at hends ⊢
    refine ⟨rfl, _, hrun', hf.set i m' ?_ hsettled⟩
    rw [hheld]
    cases hopen : m.life.connection.isClosed with
    | true =>
      rw [hm', hnext, Connection.run_of_closed hopen, hopen]
    | false =>
      rw [hopen] at hends
      simpa using hends

theorem release_service (before after : Connection) (t : Timeline ServiceTask) (s : Service) :
    (s.release before after t).2 =
      if after.isClosed && !before.isClosed then { s with coordinator := s.coordinator.release } else s := by
  unfold release
  split <;> rfl

theorem release_timeline (before after : Connection) {t : Timeline ServiceTask} (ht : t.Ahead) (s : Service) :
    (s.release before after t).1.now = t.now ∧ (s.release before after t).1.Ahead := by
  unfold release
  split
  · simp only []
    split
    · exact ⟨Timeline.now_wakeAll, ht.wakeAll⟩
    · exact ⟨rfl, ht⟩
  · exact ⟨rfl, ht⟩

/-- A connection that goes on sets timers for times to come. -/
theorem goOn_timeline {t : Timeline ServiceTask} (ht : t.Ahead) (i : Nat) (c : Connection) (s : Service) :
    (s.goOn i c t).1.now = t.now ∧ (s.goOn i c t).1.Ahead := by
  have hwaits := Connection.waits_run s.rules t.now s.coordinator.state c
  have hdue : (t.schedule (c.run s.rules t.now s.coordinator.state).deadline? (.connection i)).Ahead :=
    ht.schedule fun d hd => Nat.le_of_lt (Connection.deadline_of_waits hwaits hd)
  have hends : ((t.schedule (c.run s.rules t.now s.coordinator.state).deadline? (.connection i)).schedule
      (c.run s.rules t.now s.coordinator.state).handlerEnds? (.handler i)).Ahead := by
    refine hdue.schedule fun d hd => ?_
    rw [Timeline.now_schedule]
    exact Nat.le_of_lt (Connection.handlerEnds_of_waits hwaits hd)
  obtain ⟨hnow, hahead⟩ := release_timeline c (c.run s.rules t.now s.coordinator.state) hends
    { s with connections := s.connections.set i (c.run s.rules t.now s.coordinator.state) }
  exact ⟨hnow.trans (Timeline.now_schedule.trans Timeline.now_schedule), hahead⟩

/-- A turn takes single steps, and sets timers for times to come. -/
theorem Simulated.turn (task : ServiceTask) {t : Timeline ServiceTask} (ht : t.Ahead) (h : s.Simulated rules t.now) :
    (turn task t s).1.now = t.now ∧ (turn task t s).1.Ahead ∧ (turn task t s).2.Simulated rules t.now := by
  cases task with
  | handler i => exact ⟨Timeline.now_wake, ht.wake, h⟩
  | connection i =>
    rw [Service.turn]
    split
    · exact ⟨rfl, ht, h⟩
    · next c hc =>
      obtain ⟨hnow, hahead⟩ := goOn_timeline ht i c s
      refine ⟨hnow, hahead, ?_⟩
      have hgoOn := h.goOn hc rfl
      rw [Service.goOn, release_service]
      exact hgoOn
  | call k =>
    rw [Service.turn]
    split
    · exact ⟨rfl, ht, h⟩
    · next call hk =>
      have hdue : ∀ d, (call.run t.now s.coordinator).1.deadline? = some d → t.now ≤ d :=
        fun d hd => Nat.le_of_lt (ShutdownCall.deadline_of_run hd)
      refine ⟨?_, ?_, h.callOn hk⟩
      · show (Timeline.schedule _ _ (if _ then t else t.wakeAll _)).now = t.now
        rw [Timeline.now_schedule]
        split
        · rfl
        · exact Timeline.now_wakeAll
      · show (Timeline.schedule _ _ (if _ then t else t.wakeAll _)).Ahead
        split
        · exact ht.schedule hdue
        · refine ht.wakeAll.schedule ?_
          rw [Timeline.now_wakeAll]
          exact hdue

end Service

namespace RunningService

/-- Whatever is done with a service, by peers that send nothing after they have ended their sending half. -/
inductive Reached (rules : ConnectionRules) : RunningService → Prop
  | start : Reached rules (start rules)
  | accept {r : RunningService} (before : Reached rules r) (capacity : Nat) : Reached rules (r.accept capacity).2
  | send {r : RunningService} (before : Reached rules r) (i : Nat) (bytes : Bytes)
      (opened : ∀ c, r.service.connections[i]? = some c → c.inbound.closed = false) : Reached rules (r.send i bytes)
  | finishSending {r : RunningService} (before : Reached rules r) (i : Nat) : Reached rules (r.finishSending i)
  | hangUp {r : RunningService} (before : Reached rules r) (i : Nat) : Reached rules (r.hangUp i)
  | receive {r : RunningService} (before : Reached rules r) (i : Nat) : Reached rules (r.receive i).2
  | shutDown {r : RunningService} (before : Reached rules r) (grace : Nat) : Reached rules (r.shutDown grace)
  | pass {r : RunningService} (before : Reached rules r) (ms : Nat) : Reached rules (r.pass ms)

/-- No timer is late, and the service is as a server at work can be. -/
def Simulated (rules : ConnectionRules) (r : RunningService) : Prop :=
  r.timeline.Ahead ∧ r.service.Simulated rules r.timeline.now

variable {rules : ConnectionRules} {r : RunningService}

theorem simulated_start (rules : ConnectionRules) : (start rules).Simulated rules := by
  refine ⟨Timeline.ahead_start, rfl, _, .refl, rfl, rfl, rfl, rfl, ?_, ?_, rfl⟩
  all_goals rintro m ⟨⟩

/-- The peer of a connection does something that is a move of a lifetime. -/
theorem Simulated.act (h : r.Simulated rules) (i : Nat) (change : Connection → Connection)
    (hphase : ∀ c, (change c).phase = c.phase)
    (hchange : ∀ life : Lifetime, r.service.connections[i]? = some life.connection →
      ∃ life', Lifetime.Move rules life life' ∧ life'.connection = change life.connection ∧
        life'.now = life.now ∧ life'.shutdown = life.shutdown) :
    (r.act i change).Simulated rules := by
  obtain ⟨hahead, hrules, o, hrun, hf⟩ := h
  refine ⟨hahead.wake, hrules, ?_⟩
  show ∃ o', Operation.Run rules .start o' ∧ Service.Follows (Timeline.wake _ _).now
    { r.service with connections := r.service.connections.modify i change } o'
  rw [Timeline.now_wake, List.modify_eq_set_getElem?]
  cases hc : r.service.connections[i]? with
  | none =>
    -- there is no such connection, and nothing happens
    exact ⟨o, hrun, hf⟩
  | some c =>
    obtain ⟨m, hm, rfl⟩ := hf.member hc
    obtain ⟨life, hmove, hconnection, hnow, hshutdown⟩ := hchange (m.seen o.traffic) hc
    have hconnection : life.connection = change m.life.connection := hconnection
    have hphase : life.connection.phase = m.life.connection.phase := by
      rw [hconnection, hphase]
    refine ⟨_, hrun.move (.live i hm hmove hnow hshutdown), ?_⟩
    show Service.Follows r.timeline.now
      { r.service with connections := r.service.connections.set i (change m.life.connection) } _
    rw [← hconnection]
    refine hf.set i { m with life } ?_ ?_
    · show m.registered = _
      rw [hf.held m (List.mem_of_getElem? hm), Connection.isClosed, Connection.isClosed, hphase]
    · rw [hphase]
      exact hf.settled m (List.mem_of_getElem? hm)

theorem Simulated.accept (h : r.Simulated rules) (capacity : Nat) : (r.accept capacity).2.Simulated rules := by
  obtain ⟨hahead, hrules, o, hrun, hf⟩ := h
  -- what a call to register that has been answered leaves behind is not under way
  have hidle : ∀ id, (o.traffic.entries ++ [RegisterCall.done id]).countP RegisterCall.isPending = 0 := by
    intro id
    rw [List.countP_append]
    exact hf.idle
  unfold RunningService.accept
  rw [Coordinator.register_eq]
  by_cases hruns : r.service.coordinator.state.isRunning = true
  · rw [if_pos hruns]
    have haccept := Operation.run_accept rules o capacity (hf.coordinator ▸ hruns)
    refine ⟨hahead.wake, hrules, _, hrun.trans haccept, ?_, ?_, hf.calls, ?_, ?_, ?_, hidle _⟩
    · show o.traffic.now = (Timeline.wake _ _).now
      rw [Timeline.now_wake]
      exact hf.now
    · show o.traffic.coordinator.count.issue = _
      rw [hf.coordinator]
      rfl
    · show (o.members ++ [_]).map _ = r.service.connections ++ [_]
      rw [List.map_append, hf.connections, hf.now, hf.coordinator, hrules]
      rfl
    · intro m hm
      rcases List.mem_append.1 hm with hm | hm
      · exact hf.held m hm
      · rw [List.mem_singleton.1 hm]
        rfl
    · intro m hm
      rcases List.mem_append.1 hm with hm | hm
      · exact hf.settled m hm
      · rw [List.mem_singleton.1 hm]
        exact nofun
  · rw [if_neg hruns]
    have hrefuse := Operation.run_refuse rules o (hf.coordinator ▸ hruns)
    exact ⟨hahead, hrules, _, hrun.trans hrefuse, hf.now, hf.coordinator, hf.calls, hf.connections, hf.held, hf.settled,
      hidle _⟩

theorem Simulated.shutDown (h : r.Simulated rules) (grace : Nat) : (r.shutDown grace).Simulated rules := by
  obtain ⟨hahead, hrules, o, hrun, hf⟩ := h
  refine ⟨hahead.wake, hrules, _, hrun.move (.coordinate (.shutDown grace) rfl rfl (.inl rfl)), ?_, hf.coordinator, ?_,
    hf.connections, hf.held, hf.settled, hf.idle⟩
  · show o.traffic.now = (Timeline.wake _ _).now
    rw [Timeline.now_wake]
    exact hf.now
  · show o.traffic.calls ++ _ = r.service.calls ++ _
    rw [hf.calls]

theorem Simulated.pass (h : r.Simulated rules) (ms : Nat) : (r.pass ms).Simulated rules := by
  obtain ⟨hahead, hsimulated⟩ := h
  -- for any number of turns, so that nothing depends on how many are allowed
  have hkeeps : ∀ turns,
      (Timeline.runUntil Service.turn (r.timeline.now + ms) turns r.timeline r.service).1.Ahead ∧
      (Timeline.runUntil Service.turn (r.timeline.now + ms) turns r.timeline r.service).2.Simulated rules
        (Timeline.runUntil Service.turn (r.timeline.now + ms) turns r.timeline r.service).1.now := fun turns =>
    Timeline.runUntil_keeps (P := Service.Simulated rules) (fun task t s ht hs => hs.turn task ht)
      (fun _ _ _ hle hs => hs.pass hle) _ turns _ _ (Nat.le_add_right _ _) hahead hsimulated
  unfold RunningService.pass
  exact hkeeps _

theorem Reached.simulated (h : r.Reached rules) : r.Simulated rules := by
  induction h with
  | start => exact simulated_start rules
  | accept before capacity ih => exact ih.accept capacity
  | send before i bytes opened ih =>
    exact ih.act i _ (fun _ => rfl) fun life hc => ⟨_, .send bytes (opened _ hc), rfl, rfl, rfl⟩
  | finishSending before i ih => exact ih.act i _ (fun _ => rfl) fun life _ => ⟨_, .endSending, rfl, rfl, rfl⟩
  | hangUp before i ih => exact ih.act i _ (fun _ => rfl) fun life _ => ⟨_, .hangUp, rfl, rfl, rfl⟩
  | receive before i ih =>
    unfold RunningService.receive
    split
    · exact ih
    · split
      · exact ih
      · exact ih.act i _ (fun _ => rfl) fun life _ => ⟨_, .receive _, rfl, rfl, rfl⟩
  | shutDown before grace ih => exact ih.shutDown grace
  | pass before ms ih => exact ih.pass ms

/-- The connections of a service are those of lifetimes, by its clock and its shutdown; its counter is the number of
connections that have not ended; once the shutdown has ended no more of them are left than have been reported as
forced; and all requests give the same report. -/
theorem Reached.account (h : r.Reached rules) :
    (∀ c ∈ r.service.connections, ∃ id capacity now t, Lifetime.Run rules (.start rules id capacity now) t ∧
      t.connection = c ∧ t.now = r.timeline.now ∧ t.shutdown = r.service.coordinator.state) ∧
    r.service.coordinator.live = r.service.connections.countP (!·.isClosed) ∧
    (r.service.coordinator.state.isTerminated = true →
      r.service.connections.countP (!·.isClosed) ≤ r.service.coordinator.forced) ∧
    ∀ report, .done report ∈ r.service.calls →
      r.service.coordinator.state.isTerminated = true ∧ report = r.service.coordinator.report := by
  obtain ⟨-, -, o, hrun, hf⟩ := h.simulated
  have hproper : o.Proper rules := Operation.proper_start.run hrun
  have hguards : o.traffic.guards = r.service.connections.countP (!·.isClosed) := by
    rw [hproper.held, ← hf.connections, List.countP_map]
    exact List.countP_congr fun m hm => by rw [hf.held m hm]; rfl
  rw [← hf.coordinator, ← hf.calls, ← hguards]
  refine ⟨?_, ?_, ?_, ?_⟩
  · intro c hc
    rw [← hf.connections] at hc
    obtain ⟨m, hm, rfl⟩ := List.mem_map.1 hc
    obtain ⟨id, capacity, now, hlife⟩ := hproper.lives m hm
    exact ⟨id, capacity, now, _, hlife, rfl, hf.now, rfl⟩
  · rw [hproper.traffic.count, hf.idle, Nat.add_zero]
  · intro hended
    exact Nat.le_trans (Nat.le_add_right _ _) (hproper.traffic.ended hended)
  · intro report hreport
    exact hproper.traffic.calls _ hreport

end RunningService

end Hypertext
