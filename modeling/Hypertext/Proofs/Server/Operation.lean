/-
A server at work: a coordinator with everybody who calls on it, and the connections that have been accepted. Each
connection holds a guard from the moment it is accepted until it has ended, and all of them see one clock and one
shutdown. What one of them does, what its peer does and what happens on the coordinator may come in any order.

A connection sees nothing of the others, so what it goes through is a lifetime of its own; that is said once, in
`Move.origin`, and carries what holds of lifetimes over to all connections of a server.
-/
import Hypertext.Proofs.Server.Parting
import Hypertext.Proofs.Shutdown.Reports

namespace Hypertext

namespace ShutdownState

/-- A state that has changed is not one to begin with, and was not the last one. -/
theorem GoesTo.changes {a b : ShutdownState} (h : a.GoesTo b) (hne : b ≠ a) : b ≠ .running ∧ a ≠ .terminated := by
  rcases h with rfl | ⟨rfl, hb⟩ | ⟨ha, rfl⟩
  · exact absurd rfl hne
  · refine ⟨?_, nofun⟩
    rintro rfl
    cases hb
  · refine ⟨nofun, ?_⟩
    rintro rfl
    cases ha

end ShutdownState

namespace Traffic

variable {t u : Traffic} {e : TrafficEvent}

/-- Time does not go back. -/
theorem step_now (h : t.step e = some u) : ∃ ms, u.now = t.now + ms := by
  cases e with
  | enter | shutDown grace => cases h; exact ⟨0, rfl⟩
  | register i =>
    obtain ⟨before, call, after, next, c, -, -, rfl⟩ := step_register h
    exact ⟨0, rfl⟩
  | drop =>
    simp only [step] at h
    split at h
    · cases h; exact ⟨0, rfl⟩
    · cases h
  | call k =>
    obtain ⟨before, call, after, next, c, -, -, -, rfl⟩ := step_call h
    exact ⟨0, rfl⟩
  | pass ms => cases h; exact ⟨ms, rfl⟩

/-- Whoever is accepted gets a guard. -/
theorem guards_of_granted {i : Nat} {id : ConnectionId} (h : t.step (.register i) = some u)
    (hgranted : u.entries[i]? = some (.done (some id))) : u.guards = t.guards + 1 := by
  obtain ⟨call, hcall, h⟩ := Option.bind_eq_some_iff.1 h
  obtain ⟨⟨next, c⟩, -, rfl⟩ := Option.map_eq_some_iff.1 h
  obtain ⟨hi, -⟩ := List.getElem?_eq_some_iff.1 hcall
  obtain rfl : next = .done (some id) := Option.some.inj ((List.getElem?_set_self hi).symm.trans hgranted)
  rfl

end Traffic

/-! ## Servers -/

/-- A connection that has been accepted, and whether its guard is still held. -/
structure Member where
  life : Lifetime
  registered : Bool

namespace Member

/-- The connection in the time and in the shutdown that all connections share. -/
def seen (t : Traffic) (m : Member) : Lifetime := { m.life with now := t.now, shutdown := t.coordinator.state }

def works (m : Member) : Bool := m.life.connection.phase.works

def isForced (m : Member) : Bool := m.life.connection.phase.isForced

def isDoomed (m : Member) : Bool := m.life.connection.phase.isDoomed

/-- What the connection has gone through is a lifetime. -/
def Lives (rules : ConnectionRules) (t : Traffic) (m : Member) : Prop :=
  ∃ id capacity now, Lifetime.Run rules (.start rules id capacity now) (m.seen t)

/-- Whether the connection has ended. -/
def HasEnded (m : Member) : Prop := ∃ reason, m.life.connection.phase = .closed reason

variable {rules : ConnectionRules} {t : Traffic} {m : Member}

theorem Lives.orderly (h : m.Lives rules t) : (m.seen t).Orderly rules := by
  obtain ⟨id, capacity, now, hrun⟩ := h
  exact hrun.orderly (Lifetime.orderly_start id capacity now)

theorem Lives.ended_of_forced (h : m.Lives rules t) (hforced : m.isForced = true) :
    t.coordinator.state.isTerminated = true := by
  obtain ⟨id, capacity, now, hrun⟩ := h
  exact hrun.ended_of_forced (Lifetime.orderly_start id capacity now) nofun hforced

end Member

/-- A coordinator, and the connections that have been accepted. -/
structure Operation where
  traffic : Traffic
  members : List Member

namespace Operation

def start : Operation := ⟨.start, []⟩

/-- What can happen: something on the coordinator by which nobody gets a guard or gives it back, with an answer written
and counted in one go as in a lifetime; a connection is accepted; one of those there are goes on, or something happens
to it; and one that has ended gives back its guard. -/
inductive Move (rules : ConnectionRules) : Operation → Operation → Prop
  | coordinate {o : Operation} {t : Traffic} (e : TrafficEvent) (h : o.traffic.step e = some t)
      (held : t.guards = o.traffic.guards)
      (counted : t.coordinator.state = o.traffic.coordinator.state ∨
        ∀ m ∈ o.members, ∀ sequel, m.life.connection.phase ≠ .answering [] sequel) :
      Move rules o { o with traffic := t }
  | accept {o : Operation} {t : Traffic} {id : ConnectionId} (i capacity : Nat)
      (h : o.traffic.step (.register i) = some t) (granted : t.entries[i]? = some (.done (some id))) :
      Move rules o ⟨t, o.members ++ [⟨.start rules id capacity t.now, true⟩]⟩
  | live {o : Operation} {m : Member} {life : Lifetime} (i : Nat) (member : o.members[i]? = some m)
      (h : Lifetime.Move rules (m.seen o.traffic) life) (now : life.now = o.traffic.now)
      (shutdown : life.shutdown = o.traffic.coordinator.state) :
      Move rules o { o with members := o.members.set i { m with life } }
  | leave {o : Operation} {m : Member} {t : Traffic} (i : Nat) (member : o.members[i]? = some m)
      (ended : m.HasEnded) (held : m.registered = true) (h : o.traffic.step .drop = some t) :
      Move rules o ⟨t, o.members.set i { m with registered := false }⟩

/-- Moves one after another. -/
inductive Run (rules : ConnectionRules) (o : Operation) : Operation → Prop
  | refl : Run rules o o
  | move {p q : Operation} (run : Run rules o p) (next : Move rules p q) : Run rules o q

variable {rules : ConnectionRules} {o p q : Operation} {i : Nat} {m m' : Member}

theorem Run.trans (h : Run rules o p) (h' : Run rules p q) : Run rules o q := by
  induction h' with
  | refl => exact h
  | move _ next ih => exact ih.move next

/-! ## The coordinator -/

theorem Move.traffic (h : Move rules o p) : p.traffic = o.traffic ∨ ∃ e, o.traffic.step e = some p.traffic := by
  cases h with
  | coordinate e h => exact .inr ⟨e, h⟩
  | accept i capacity h => exact .inr ⟨_, h⟩
  | live => exact .inl rfl
  | leave i member ended held h => exact .inr ⟨_, h⟩

/-- What happens to a server happens to its coordinator. -/
theorem Run.traffic (h : Run rules o p) : ∃ events, o.traffic.replay events = some p.traffic := by
  induction h with
  | refl => exact ⟨[], rfl⟩
  | move run next ih =>
    obtain ⟨events, hevents⟩ := ih
    rcases next.traffic with hsame | ⟨e, he⟩
    · exact ⟨events, hsame ▸ hevents⟩
    · refine ⟨events ++ [e], ?_⟩
      rw [Traffic.replay_append_of_eq hevents, Traffic.replay, he]
      rfl

/-! ## A connection comes -/

/-- The call to register that came last goes on, and nobody gets a guard yet. -/
theorem Run.register_last {t : Traffic} {members : List Member} {entries : List RegisterCall}
    {call next : RegisterCall} {c d : Coordinator}
    (h : Run rules o ⟨{ t with coordinator := c, entries := entries ++ [call] }, members⟩)
    (hstep : call.step c = some (next, d)) (hnone : next.handedOut = 0) :
    Run rules o ⟨{ t with coordinator := d, entries := entries ++ [next] }, members⟩ := by
  have htraffic : { t with coordinator := c, entries := entries ++ [call] }.step (.register entries.length) =
      some { t with coordinator := d, entries := entries ++ [next], guards := t.guards + next.handedOut } :=
    Traffic.step_register_last hstep
  rw [hnone] at htraffic
  exact h.move (.coordinate _ htraffic rfl (.inl (RegisterCall.shutdown_step hstep).1))

/-- A connection is refused in one go. -/
theorem run_refuse (rules : ConnectionRules) (o : Operation) (hbegun : ¬o.traffic.coordinator.state.isRunning = true) :
    Run rules o { o with traffic := { o.traffic with entries := o.traffic.entries ++ [.done none] } } := by
  have hentered : Run rules o { o with traffic := { o.traffic with entries := o.traffic.entries ++ [.fresh] } } :=
    Run.refl.move (.coordinate .enter rfl rfl (.inl rfl))
  have hrefused := (hentered.register_last rfl rfl).register_last (RegisterCall.step_counted_of_begun hbegun) rfl
  exact hrefused.register_last rfl rfl

/-- A connection is accepted in one go. -/
theorem run_accept (rules : ConnectionRules) (o : Operation) (capacity : Nat)
    (hruns : o.traffic.coordinator.state.isRunning = true) :
    Run rules o {
      traffic := { o.traffic with
        coordinator := o.traffic.coordinator.count.issue
        entries := o.traffic.entries ++ [.done (some ⟨o.traffic.coordinator.nextNumber⟩)]
        guards := o.traffic.guards + 1 }
      members := o.members ++ [⟨.start rules ⟨o.traffic.coordinator.nextNumber⟩ capacity o.traffic.now, true⟩] } := by
  have hentered : Run rules o { o with traffic := { o.traffic with entries := o.traffic.entries ++ [.fresh] } } :=
    Run.refl.move (.coordinate .enter rfl rfl (.inl rfl))
  have hadmitted := (hentered.register_last rfl rfl).register_last (RegisterCall.step_counted_of_running hruns) rfl
  exact hadmitted.move (.accept o.traffic.entries.length capacity (Traffic.step_register_last rfl)
    List.getElem?_concat_length)

/-! ## The connections -/

/-- What happens on the coordinator is a part of the life of each connection. -/
theorem seen_run {t u : Traffic} {e : TrafficEvent} (ht : t.Sound) (h : t.step e = some u) (m : Member)
    (counted : u.coordinator.state = t.coordinator.state ∨
      ∀ sequel, m.life.connection.phase ≠ .answering [] sequel) : Lifetime.Run rules (m.seen t) (m.seen u) := by
  obtain ⟨ms, hnow⟩ := Traffic.step_now h
  have hpass : Lifetime.Run rules (m.seen t) { m.seen t with now := u.now } := by
    rw [hnow]
    exact Lifetime.Run.refl.move (.pass ms)
  by_cases hstate : u.coordinator.state = t.coordinator.state
  · have hseen : m.seen u = { m.seen t with now := u.now } := by
      rw [Member.seen, Member.seen, hstate]
    rw [hseen]
    exact hpass
  · obtain ⟨hbegun, hunended⟩ := (ht.goesTo h).changes hstate
    exact hpass.move (.shutDown u.coordinator.state hbegun hunended (counted.resolve_left hstate))

/-- A connection that is accepted sees the shutdown as it is then. -/
theorem newcomer_run (rules : ConnectionRules) (id : ConnectionId) (capacity : Nat) (t : Traffic) :
    Lifetime.Run rules (.start rules id capacity t.now)
      (Member.seen t ⟨.start rules id capacity t.now, true⟩) := by
  by_cases hstate : t.coordinator.state = .running
  · rw [Member.seen, hstate]
    exact .refl
  · exact Lifetime.Run.refl.move (.shutDown t.coordinator.state hstate nofun nofun)

/-- Each connection either has just been accepted, or what has happened is a part of its life. -/
theorem Move.origin (h : Move rules o p) (ho : o.traffic.Sound) (hm : p.members[i]? = some m') :
    (∃ m, o.members[i]? = some m ∧ Lifetime.Run rules (m.seen o.traffic) (m'.seen p.traffic)) ∨
      o.members[i]? = none ∧ ∃ id capacity, m' = ⟨.start rules id capacity p.traffic.now, true⟩ := by
  cases h with
  | coordinate e h held counted =>
    refine .inl ⟨m', hm, seen_run ho h m' ?_⟩
    exact counted.imp_right fun hall => hall m' (List.mem_of_getElem? hm)
  | @accept t id j capacity h granted =>
    rw [List.getElem?_append] at hm
    split at hm
    -- registering leaves the shutdown as it is
    · exact .inl ⟨m', hm, seen_run ho h m' (.inl (Traffic.step_shutdown h nofun).1)⟩
    · next hlast =>
      exact .inr ⟨List.getElem?_eq_none (Nat.le_of_not_lt hlast), id, capacity,
        List.mem_singleton.1 (List.mem_of_getElem? hm)⟩
  | @live m life j member h now shutdown =>
    refine .inl ?_
    rw [List.getElem?_set] at hm
    split at hm
    · next hij =>
      subst hij
      split at hm
      · cases hm
        -- a connection that goes on goes on in the time and the shutdown that it has seen
        have hseen : Member.seen o.traffic { m with life } = life := by
          rw [Member.seen, ← now, ← shutdown]
        refine ⟨m, member, ?_⟩
        rw [hseen]
        exact Lifetime.Run.refl.move h
      · cases hm
    · exact ⟨m', hm, .refl⟩
  | @leave m t j member ended held h =>
    refine .inl ?_
    have hstate := (Traffic.step_shutdown h nofun).1
    rw [List.getElem?_set] at hm
    split at hm
    · next hij =>
      subst hij
      split at hm
      · cases hm
        exact ⟨m, member, seen_run ho h m (.inl hstate)⟩
      · cases hm
    · exact ⟨m', hm, seen_run ho h m' (.inl hstate)⟩

/-- No connection is forgotten. -/
theorem Move.length_le (h : Move rules o p) : o.members.length ≤ p.members.length := by
  cases h with
  | coordinate => exact Nat.le_refl _
  | accept =>
    rw [List.length_append]
    exact Nat.le_add_right ..
  | live | leave => exact Nat.le_of_eq List.length_set.symm

/-- What happens is a part of the life of each connection there is. -/
theorem Move.member (h : Move rules o p) (ho : o.traffic.Sound) (hm : o.members[i]? = some m) :
    ∃ m', p.members[i]? = some m' ∧ Lifetime.Run rules (m.seen o.traffic) (m'.seen p.traffic) := by
  obtain ⟨hi, -⟩ := List.getElem?_eq_some_iff.1 hm
  have hm' := List.getElem?_eq_getElem (Nat.lt_of_lt_of_le hi h.length_le)
  refine ⟨_, hm', ?_⟩
  rcases h.origin ho hm' with ⟨m₀, hm₀, hrun⟩ | ⟨hnone, -⟩
  · rw [hm] at hm₀
    cases hm₀
    exact hrun
  · rw [hm] at hnone
    cases hnone

/-! ## What holds at every time -/

/-- The guards are those of the connections that have not given them back; only connections that have ended have done
so; and what each connection has gone through is a lifetime. -/
structure Proper (rules : ConnectionRules) (o : Operation) : Prop where
  traffic : o.traffic.Sound
  held : o.traffic.guards = o.members.countP Member.registered
  ended : ∀ m ∈ o.members, m.registered = false → m.HasEnded
  lives : ∀ m ∈ o.members, m.Lives rules o.traffic

theorem proper_start : start.Proper rules := by
  refine ⟨Traffic.sound_start, rfl, ?_, ?_⟩
  all_goals rintro m ⟨⟩

/-- Whatever happens to a connection that has ended, it has ended for that reason. -/
theorem closed_move {t u : Lifetime} (h : Lifetime.Move rules t u) {reason : CloseReason}
    (ht : t.connection.phase = .closed reason) : u.connection.phase = .closed reason := by
  cases h with
  | step table h =>
    rw [Connection.step, ht] at h
    cases h
  | send | endSending | hangUp | receive | pass | shutDown | reserve => exact ht

theorem Move.sound (h : Move rules o p) (ho : o.traffic.Sound) : p.traffic.Sound := by
  rcases h.traffic with hsame | ⟨e, he⟩
  · rw [hsame]
    exact ho
  · exact ho.step he

/-- A guard comes with a connection and goes when the connection gives it back. -/
theorem Move.held (h : Move rules o p) (hheld : o.traffic.guards = o.members.countP Member.registered) :
    p.traffic.guards = p.members.countP Member.registered := by
  cases h with
  | coordinate e h held => exact held.trans hheld
  | accept i capacity h granted =>
    rw [List.countP_append, ← hheld]
    exact Traffic.guards_of_granted h granted
  | @live m life i member h =>
    obtain ⟨before, after, hsplit, hset⟩ := split_of_getElem? member
    rw [hsplit, countP_middle] at hheld
    rw [hset, countP_middle]
    exact hheld
  | @leave m t i member ended held h =>
    obtain ⟨before, after, hsplit, hset⟩ := split_of_getElem? member
    rw [hsplit, countP_middle, held] at hheld
    rw [hset, countP_middle]
    simp only [Traffic.step] at h
    split at h
    · cases h
      show o.traffic.guards - 1 = _
      rw [hheld]
      rfl
    · cases h

/-- Only a connection that has ended gives its guard back, and it does not begin again. -/
theorem Move.ended (h : Move rules o p) (hended : ∀ m ∈ o.members, m.registered = false → m.HasEnded) :
    ∀ m ∈ p.members, m.registered = false → m.HasEnded := by
  cases h with
  | coordinate => exact hended
  | accept i capacity h granted =>
    intro m hm hgone
    rcases List.mem_append.1 hm with hm | hm
    · exact hended m hm hgone
    · rw [List.mem_singleton.1 hm] at hgone
      cases hgone
  | @live m life i member h =>
    intro m' hm' hgone
    rcases List.mem_or_eq_of_mem_set hm' with hm' | rfl
    · exact hended m' hm' hgone
    · obtain ⟨reason, hp⟩ := hended m (List.mem_of_getElem? member) hgone
      exact ⟨reason, closed_move h hp⟩
  | @leave m t i member ended held h =>
    intro m' hm' hgone
    rcases List.mem_or_eq_of_mem_set hm' with hm' | rfl
    · exact hended m' hm' hgone
    · exact ended

theorem Proper.move (ho : o.Proper rules) (h : Move rules o p) : p.Proper rules := by
  refine ⟨h.sound ho.traffic, h.held ho.held, h.ended ho.ended, ?_⟩
  intro m' hm'
  obtain ⟨i, hi⟩ := List.getElem?_of_mem hm'
  rcases h.origin ho.traffic hi with ⟨m, hm, hrun⟩ | ⟨-, id, capacity, rfl⟩
  · obtain ⟨id, capacity, now, hbefore⟩ := ho.lives m (List.mem_of_getElem? hm)
    exact ⟨id, capacity, now, hbefore.trans hrun⟩
  · exact ⟨id, capacity, _, newcomer_run rules id capacity p.traffic⟩

theorem Proper.run (ho : o.Proper rules) (h : Run rules o p) : p.Proper rules := by
  induction h with
  | refl => exact ho
  | move run next ih => exact ih.move next

/-- What happens to a server is a part of the life of each connection. -/
theorem Run.life (h : Run rules o p) (ho : o.Proper rules) (hm : o.members[i]? = some m) :
    ∃ m', p.members[i]? = some m' ∧ Lifetime.Run rules (m.seen o.traffic) (m'.seen p.traffic) := by
  induction h with
  | refl => exact ⟨m, hm, .refl⟩
  | @move p q run next ih =>
    obtain ⟨m₁, hm₁, hrun⟩ := ih
    obtain ⟨m₂, hm₂, hnext⟩ := next.member (ho.run run).traffic hm₁
    exact ⟨m₂, hm₂, hrun.trans hnext⟩

/-- Nobody is doomed who was not when the shutdown ended. -/
theorem Move.doomed (h : Move rules o p) (ho : o.Proper rules)
    (hs : o.traffic.coordinator.state.isTerminated = true) :
    p.members.countP Member.isDoomed = o.members.countP Member.isDoomed := by
  cases h with
  | coordinate => rfl
  | accept =>
    rw [List.countP_append]
    rfl
  | @live m life i member h =>
    obtain ⟨before, after, hsplit, hset⟩ := split_of_getElem? member
    have hdoomed : life.connection.phase.isDoomed = m.isDoomed :=
      ((ho.lives m (List.mem_of_getElem? member)).orderly.doomed_move hs h).1
    rw [hset, hsplit, countP_middle, countP_middle, ← hdoomed]
    rfl
  | @leave m t i member =>
    obtain ⟨before, after, hsplit, hset⟩ := split_of_getElem? member
    rw [hset, hsplit, countP_middle, countP_middle]
    rfl

theorem Run.doomed (h : Run rules o p) (ho : o.Proper rules)
    (hs : o.traffic.coordinator.state.isTerminated = true) :
    p.members.countP Member.isDoomed = o.members.countP Member.isDoomed := by
  induction h with
  | refl => rfl
  | @move p q run next ih =>
    have hended : p.traffic.coordinator.state.isTerminated = true := by
      obtain ⟨events, hevents⟩ := run.traffic
      exact (ho.traffic.ended_replay hs hevents).1
    exact (next.doomed (ho.run run) hended).trans ih

end Operation

end Hypertext
