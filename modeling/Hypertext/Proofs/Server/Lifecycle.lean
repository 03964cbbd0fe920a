/-
The lifecycle of the connections of a server: whatever happens on the coordinator and around the connections, and
whether reads fail or not, each connection goes through its states as it may, ends once, counts the answers that it has
written, and takes one off the number of live connections when it gives its guard back.

What happens is kept in a log, with the connection that each turn belongs to and what the turn has made of the number of
live connections.
-/
import Hypertext.Proofs.Server.ForcedClose
import Hypertext.Proofs.Server.Record
import Hypertext.Proofs.Server.Service
import Mathlib.Algebra.Ring.Int.Defs

namespace Hypertext

theorem Connection.phase_of_summary {c : Connection} {s : ConnectionSummary} (h : c.summary? = some s) :
    c.phase = .closed s.reason ∧ c.served = s.served := by
  unfold Connection.summary? at h
  split at h
  · next hp =>
    cases h
    exact ⟨hp, rfl⟩
  · cases h

/-- What a connection that has ended has come to: it has ended once and last, its summary tells how many of the answers
to dispatched requests have been written, it has worked on that many requests, or on one more that it was forced or
failed to answer, and only while it awaited a request has it given its peer up. -/
structure Lifetime.SumsUp (rules : ConnectionRules) (summary : ConnectionSummary) (t : Lifetime) : Prop where
  last : t.connection.record.states.getLast? = some .closed
  once : t.connection.record.states.count .closed = 1
  entries : t.connection.record.entries = summary.served ∨
    t.connection.record.entries = summary.served + 1 ∧ (summary.reason = .forced ∨ summary.reason = .io)
  calls : t.calls.map (·.request) = t.connection.dispatched
  served : summary.served =
    (List.range t.connection.dispatched.length).countP (fun i => decide (t.Delivered rules i))
  waited : summary.reason = .peerClosed ∨ summary.reason = .idleTimeout →
    t.connection.moves.getLast? = some (.accepted, .closed) ∨ t.connection.moves.getLast? = some (.idle, .closed)

theorem Lifetime.Booked.sumsUp {rules : ConnectionRules} {t : Lifetime} (h : t.Booked rules)
    {summary : ConnectionSummary} (hs : t.connection.summary? = some summary) : t.SumsUp rules summary := by
  obtain ⟨hp, hserved⟩ := Connection.phase_of_summary hs
  have hfits := h.record.fits
  rw [hp] at hfits
  have hconcludes : t.connection.record.Concludes summary.reason := hfits
  have hlast : t.connection.record.states.getLast? = some .closed := by rw [h.record.last, hconcludes.state]
  constructor
  case last => exact hlast
  case once => exact ConnectionState.count_closed h.record.chain hlast
  case entries =>
    rw [← hserved]
    exact hconcludes.entries
  case calls => exact (h.closed hp).1.calls
  case served => rw [← hserved, ← h.served_eq hp]
  case waited => exact hconcludes.waited

namespace Operation

/-- How many connections the coordinator takes to be live. -/
def live (o : Operation) : Nat := o.traffic.coordinator.live

/-- What can happen, and to which connection: what a move is, or a read of a connection fails. -/
inductive Turn (rules : ConnectionRules) (o : Operation) : Option Nat → Operation → Prop
  | coordinate {t : Traffic} (e : TrafficEvent) (h : o.traffic.step e = some t) (held : t.guards = o.traffic.guards)
      (counted : t.coordinator.state = o.traffic.coordinator.state ∨
        ∀ m ∈ o.members, ∀ sequel, m.life.connection.phase ≠ .answering [] sequel) :
      Turn rules o none { o with traffic := t }
  | accept {t : Traffic} {id : ConnectionId} (i capacity : Nat) (h : o.traffic.step (.register i) = some t)
      (granted : t.entries[i]? = some (.done (some id))) :
      Turn rules o none ⟨t, o.members ++ [⟨.start rules id capacity t.now, true⟩]⟩
  | live {m : Member} {life : Lifetime} (i : Nat) (member : o.members[i]? = some m)
      (h : Lifetime.Move rules (m.seen o.traffic) life) (now : life.now = o.traffic.now)
      (shutdown : life.shutdown = o.traffic.coordinator.state) :
      Turn rules o (some i) { o with members := o.members.set i { m with life } }
  | failRead {m : Member} {c : Connection} (i : Nat) (member : o.members[i]? = some m)
      (h : m.life.connection.failRead o.traffic.coordinator.state = some c) :
      Turn rules o (some i) { o with
        members := o.members.set i { m with life := { m.life with connection := c } } }
  | leave {m : Member} {t : Traffic} (i : Nat) (member : o.members[i]? = some m) (ended : m.HasEnded)
      (held : m.registered = true) (h : o.traffic.step .drop = some t) :
      Turn rules o (some i) ⟨t, o.members.set i { m with registered := false }⟩

/-- Turns one after another, with the connection that each belongs to and its change of the number of live
connections. -/
inductive Course (rules : ConnectionRules) (o : Operation) : List (Option Nat × Int) → Operation → Prop
  | refl : Course rules o [] o
  | turn {log : List (Option Nat × Int)} {p q : Operation} {who : Option Nat} (course : Course rules o log p)
      (next : Turn rules p who q) : Course rules o (log ++ [(who, (q.live : Int) - p.live)]) q

/-- What the turns of a connection have made of the number of live connections. -/
def changesBy (i : Nat) (log : List (Option Nat × Int)) : Int :=
  ((log.filter fun entry => entry.1 = some i).map (·.2)).sum

variable {rules : ConnectionRules} {o p q : Operation} {who : Option Nat} {i : Nat} {m : Member}
variable {log : List (Option Nat × Int)}

/-- A turn is a move, or a read that fails. -/
theorem Turn.cases_move (h : Turn rules o who p) : Move rules o p ∨
    ∃ i m c, who = some i ∧ o.members[i]? = some m ∧
      m.life.connection.failRead o.traffic.coordinator.state = some c ∧
      p = { o with members := o.members.set i { m with life := { m.life with connection := c } } } := by
  cases h with
  | coordinate e h held counted => exact .inl (.coordinate e h held counted)
  | accept i capacity h granted => exact .inl (.accept i capacity h granted)
  | live i member h now shutdown => exact .inl (.live i member h now shutdown)
  | failRead i member h => exact .inr ⟨i, _, _, rfl, member, h, rfl⟩
  | leave i member ended held h => exact .inl (.leave i member ended held h)

theorem Move.turn (h : Move rules o p) : ∃ who, Turn rules o who p := by
  cases h with
  | coordinate e h held counted => exact ⟨_, .coordinate e h held counted⟩
  | accept i capacity h granted => exact ⟨_, .accept i capacity h granted⟩
  | live i member h now shutdown => exact ⟨_, .live i member h now shutdown⟩
  | leave i member ended held h => exact ⟨_, .leave i member ended held h⟩

/-! ## What holds at every time -/

/-- What is held of a server whose reads may fail: its guards are those of the connections that have not given them
back, only connections that have ended have done so, and record and ledger of each are in order. -/
structure Kept (rules : ConnectionRules) (o : Operation) : Prop where
  traffic : o.traffic.Sound
  held : o.traffic.guards = o.members.countP Member.registered
  ended : ∀ m ∈ o.members, m.registered = false → m.HasEnded
  booked : ∀ m ∈ o.members, (m.seen o.traffic).Booked rules

theorem kept_start : start.Kept rules := by
  constructor
  case traffic => exact Traffic.sound_start
  case held => rfl
  all_goals rintro m ⟨⟩

theorem Kept.move (ho : o.Kept rules) (h : Move rules o p) : p.Kept rules := by
  constructor
  case traffic => exact h.sound ho.traffic
  case held => exact h.held ho.held
  case ended => exact h.ended ho.ended
  case booked =>
    intro m' hm'
    obtain ⟨i, hi⟩ := List.getElem?_of_mem hm'
    rcases h.origin ho.traffic hi with ⟨m, hm, hrun⟩ | ⟨-, id, capacity, rfl⟩
    · exact hrun.booked (ho.booked m (List.mem_of_getElem? hm))
    · exact (newcomer_run rules id capacity p.traffic).booked (Lifetime.booked_start rules id capacity p.traffic.now)

theorem Kept.turn (ho : o.Kept rules) (h : Turn rules o who p) : p.Kept rules := by
  rcases h.cases_move with hmove | ⟨i, m, c, -, member, hfail, rfl⟩
  · exact ho.move hmove
  · have hmem := List.mem_of_getElem? member
    obtain ⟨before, after, hsplit, hset⟩ := split_of_getElem? member
    constructor
    case traffic => exact ho.traffic
    case held =>
      have hheld := ho.held
      rw [hsplit, countP_middle] at hheld
      show o.traffic.guards = (o.members.set i _).countP _
      rw [hset, countP_middle]
      exact hheld
    case ended =>
      intro m' hm' hgone
      rcases List.mem_or_eq_of_mem_set hm' with hm' | rfl
      · exact ho.ended m' hm' hgone
      -- a connection that has ended does not read
      · obtain ⟨reason, hp⟩ := ho.ended m hmem hgone
        rw [Connection.failRead, hp] at hfail
        cases hfail
    case booked =>
      intro m' hm'
      rcases List.mem_or_eq_of_mem_set hm' with hm' | rfl
      · exact ho.booked m' hm'
      · exact (ho.booked m hmem).failRead hfail

theorem Course.kept (h : Course rules o log p) (ho : o.Kept rules) : p.Kept rules := by
  induction h with
  | refl => exact ho
  | turn course next ih => exact ih.turn next

/-! ## The number of live connections -/

/-- A connection has come and has given its guard back. -/
def HasLeft (i : Nat) (o : Operation) : Prop := o.members[i]?.map Member.registered = some false

instance (i : Nat) (o : Operation) : Decidable (o.HasLeft i) := by
  unfold HasLeft
  infer_instance

theorem hasLeft_iff (hm : o.members[i]? = some m) : o.HasLeft i ↔ m.registered = false := by
  simp [HasLeft, hm]

theorem hasLeft_accept (t : Traffic) (life : Lifetime) :
    HasLeft i ⟨t, o.members ++ [⟨life, true⟩]⟩ ↔ o.HasLeft i := by
  unfold HasLeft
  rw [List.getElem?_append]
  split
  · rfl
  · next hlast =>
    rw [List.getElem?_eq_none (Nat.le_of_not_lt hlast)]
    cases i - o.members.length <;> simp

theorem hasLeft_set {j : Nat} (i : Nat) (t : Traffic) (m' : Member) (hm : o.members[j]? = some m)
    (hsame : i = j → m'.registered = m.registered) : HasLeft i ⟨t, o.members.set j m'⟩ ↔ o.HasLeft i := by
  unfold HasLeft
  by_cases hij : i = j
  · subst hij
    rw [List.getElem?_set_self (List.getElem?_eq_some_iff.1 hm).1, hm, Option.map_some, Option.map_some, hsame rfl]
  · rw [List.getElem?_set_ne (Ne.symm hij)]

/-- Whoever gives a guard back is one less. -/
theorem live_drop {t : Traffic} (ho : o.traffic.Sound) (h : o.traffic.step .drop = some t) (members : List Member) :
    (live ⟨t, members⟩ : Int) - o.live = -1 := by
  simp only [Traffic.step] at h
  split at h
  · next hguards =>
    cases h
    have hcount := ho.count
    show ((o.traffic.coordinator.live - 1 : Nat) : Int) - o.traffic.coordinator.live = -1
    omega
  · cases h

/-- What a turn of a connection makes of the number of live connections. -/
theorem Turn.change (h : Turn rules o who p) (ho : o.Kept rules) (i : Nat) :
    ((if who = some i then (p.live : Int) - o.live else 0) + if o.HasLeft i then -1 else 0) =
      if p.HasLeft i then -1 else 0 := by
  cases h with
  | coordinate => simp [HasLeft]
  | accept j capacity h granted => simp [hasLeft_accept]
  | @live m life j member =>
    have hsame := hasLeft_set i o.traffic { m with life } member fun _ => rfl
    simp [Operation.live, hsame]
  | @failRead m c j member =>
    have hsame := hasLeft_set i o.traffic { m with life := { m.life with connection := c } } member fun _ => rfl
    simp [Operation.live, hsame]
  | @leave m t j member ended held h =>
    by_cases hij : i = j
    · subst hij
      have hbefore : ¬o.HasLeft i := by simp [hasLeft_iff member, held]
      have hafter : HasLeft i ⟨t, o.members.set i { m with registered := false }⟩ := by
        simp [HasLeft, (List.getElem?_eq_some_iff.1 member).1]
      rw [if_pos rfl, if_neg hbefore, if_pos hafter, live_drop ho.traffic h, Int.add_zero]
    · have hsame := hasLeft_set i t { m with registered := false } member fun h => absurd h hij
      have hother : ¬some j = some i := fun h => hij (Option.some.inj h).symm
      simp [hsame, hother]

theorem changesBy_append (i : Nat) (log : List (Option Nat × Int)) (who : Option Nat) (change : Int) :
    changesBy i (log ++ [(who, change)]) = changesBy i log + if who = some i then change else 0 := by
  unfold changesBy
  by_cases hwho : who = some i <;> simp [hwho]

/-- A connection that has left has taken one off the number of live connections by its turns, and any other none. -/
theorem Course.changes (h : Course rules start log o) (i : Nat) :
    changesBy i log = if o.HasLeft i then -1 else 0 := by
  induction h with
  | refl => rfl
  | turn course next ih =>
    rw [changesBy_append, ih, Int.add_comm]
    exact next.change (course.kept kept_start) i

/-- Every run of a server is a course. -/
theorem Run.course (h : Run rules o p) : ∃ log, Course rules o log p := by
  induction h with
  | refl => exact ⟨[], .refl⟩
  | move run next ih =>
    obtain ⟨log, hlog⟩ := ih
    obtain ⟨who, hturn⟩ := next.turn
    exact ⟨_, hlog.turn hturn⟩

/-- A connection that has ended and holds its guard can give it back. -/
theorem Kept.can_leave (ho : o.Kept rules) (hm : o.members[i]? = some m) (hended : m.HasEnded)
    (hheld : m.registered = true) :
    ∃ t, Turn rules o (some i) ⟨t, o.members.set i { m with registered := false }⟩ := by
  have hguards : 0 < o.traffic.guards := by
    rw [ho.held, List.countP_pos_iff]
    exact ⟨m, List.mem_of_getElem? hm, hheld⟩
  exact ⟨_, .leave i hm hended hheld (if_pos hguards)⟩

/-! ## Main result -/

end Operation

/-- The service that runs is a server at work in which a connection gives its guard back as soon as it has ended. -/
theorem RunningService.Reached.changes {rules : ConnectionRules} {r : RunningService} (h : r.Reached rules) :
    ∃ log o, Operation.Course rules .start log o ∧ r.service.Follows r.timeline.now o ∧
      ∀ i c, r.service.connections[i]? = some c →
        Operation.changesBy i log = if c.isClosed = true then -1 else 0 := by
  obtain ⟨-, -, o, hrun, hf⟩ := h.simulated
  obtain ⟨log, hlog⟩ := hrun.course
  refine ⟨log, o, hlog, hf, ?_⟩
  intro i c hc
  obtain ⟨m, hm, rfl⟩ := hf.member hc
  have hheld := hf.held m (List.mem_of_getElem? hm)
  rw [hlog.changes]
  by_cases hclosed : m.life.connection.isClosed = true
  · rw [hclosed] at hheld
    rw [if_pos ((Operation.hasLeft_iff hm).2 hheld), if_pos hclosed]
  · rw [Bool.not_eq_true] at hclosed
    rw [hclosed] at hheld
    rw [if_neg (by simp [Operation.hasLeft_iff hm, hheld]), if_neg (by simp [hclosed])]

end Hypertext
