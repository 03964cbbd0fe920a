/-
Connections that are not closed yet when the shutdown has ended, and whose peer does nothing any more. One that works
on a request is forced at its next step. One that waits for a request, or lingers, first reads what is there and
refuses it; and whoever writes a refusal is held up by nothing but the room for it. So whether a connection can end
by itself is a matter of room: `CanEnd` says how much it needs, and no step changes that.
-/
import Hypertext.Proofs.Server.SizeLimit
import Hypertext.Proofs.Server.Waiting

namespace Hypertext

namespace Connection

/-! ## What a step can do -/

/-- A step after the end of the shutdown, by what the connection was doing and what it finds. -/
inductive Parting (now : Nat) (c : Connection) : Connection → Prop
  | force (phase : c.phase.works = true) : Parting now c (c.finish .forced)
  | drain {deadline : Nat} (phase : c.phase = .examining deadline ∨ c.phase = .reading deadline) :
      Parting now c (c.drain now)
  | dismiss {rest : Bytes} {reason : CloseReason} (phase : c.phase = .refusing rest reason)
      (done : rest = [] ∨ c.outbound.closed = true) : Parting now c (c.finish reason)
  | write {rest : Bytes} {reason : CloseReason} (phase : c.phase = .refusing rest reason) (more : rest ≠ [])
      (opened : c.outbound.closed = false) (room : 0 < c.outbound.room) :
      Parting now c
        { c with phase := .refusing (c.outbound.write rest).1 reason, outbound := (c.outbound.write rest).2 }
  | read {deadline : Nat} (phase : c.phase = .lingering deadline) (found : c.inbound.bytes ≠ []) : Parting now c c.read
  | leave {deadline : Nat} (phase : c.phase = .lingering deadline) (unread : c.inbound.bytes = [])
      (nothing : c.buffer.bytes = []) : Parting now c (c.finish .drained)
  | turnAway {deadline : Nat} (phase : c.phase = .lingering deadline) (found : c.buffer.bytes ≠ []) :
      Parting now c (c.refuse .serviceUnavailable closingMessage .drained)

variable {rules : ConnectionRules} {now : Nat} {status : ShutdownState} {c after : Connection}

/-- A step after the end of the shutdown is one of these. -/
theorem step_parting (hs : status.isTerminated = true) (h : c.step rules now status = some after) :
    Parting now c after := by
  have hstops := ShutdownState.isRunning_of_isTerminated hs
  cases step_advance h with
  | drain hp => exact .drain hp
  | force hp => exact .force hp
  | dismiss hp done => exact .dismiss hp done
  | writeRefusal hp more opened room => exact .write hp more opened room
  | linger hp found => exact .read hp found
  | leave hp found unread => exact .leave hp unread found
  | turnAway hp found => exact .turnAway hp found
  | wait hp hs' | take hp hs' | refuse hp hs' | read hp hs' | giveUp hp hs' =>
    rw [hstops] at hs'
    cases hs'
  | answer hp hs' | begin hp hs' | conclude hp hs' | follow hp hs' | write hp more hs' | breakOff hp more closed hs' =>
    rw [hs] at hs'
    cases hs'

/-! ## What is still to be written -/

/-- The bytes that a connection is going to write before it ends. -/
def owed (c : Connection) : Bytes :=
  match c.phase with
  | .refusing rest _ => rest
  | .examining _ | .reading _ | .lingering _ =>
    if c.buffer.bytes.isEmpty && c.inbound.bytes.isEmpty then [] else drainRefusal
  | _ => []

/-- There is room for what is still to be written, or nobody to read it. -/
def CanEnd (c : Connection) : Prop := c.outbound.closed = true ∨ c.owed.length ≤ c.outbound.room

theorem owed_of_works (h : c.phase.works = true) : c.owed = [] := by
  unfold owed
  split
  all_goals first
    | rfl
    | next hp => rw [hp] at h; cases h

theorem owed_of_closed {reason : CloseReason} (h : c.phase = .closed reason) : c.owed = [] := by
  unfold owed
  rw [h]

theorem owed_of_awaits {deadline : Nat}
    (h : c.phase = .examining deadline ∨ c.phase = .reading deadline ∨ c.phase = .lingering deadline) :
    c.owed = if c.buffer.bytes.isEmpty && c.inbound.bytes.isEmpty then [] else drainRefusal := by
  unfold owed
  rcases h with h | h | h
  all_goals rw [h]

theorem owed_of_refusing {rest : Bytes} {reason : CloseReason} (h : c.phase = .refusing rest reason) :
    c.owed = rest := by
  unfold owed
  rw [h]

theorem canEnd_of_owed (h : c.owed = []) : c.CanEnd := by
  refine .inr ?_
  rw [h]
  exact Nat.zero_le _

/-- No step makes room, or takes any that is needed. -/
theorem Parting.canEnd_iff (h : Parting now c after) : after.CanEnd ↔ c.CanEnd := by
  have hclosed : ∀ reason, (c.finish reason).CanEnd := fun reason => canEnd_of_owed (owed_of_closed rfl)
  have hsame : after.outbound = c.outbound → after.owed = c.owed → (after.CanEnd ↔ c.CanEnd) := by
    intro houtbound howed
    rw [CanEnd, CanEnd, houtbound, howed]
  cases h with
  | force hp => exact iff_of_true (hclosed _) (canEnd_of_owed (owed_of_works hp))
  | drain hp =>
    refine hsame (outbound_move _ _) ?_
    rw [owed_of_awaits (.inr (.inr rfl)), owed_of_awaits (hp.imp_right .inl)]
    show (if (Connection.move _ _).buffer.bytes.isEmpty && (Connection.move _ _).inbound.bytes.isEmpty then _ else _) = _
    rw [buffer_move, inbound_move]
  | @dismiss rest reason hp hdone =>
    refine iff_of_true (hclosed _) ?_
    rcases hdone with rfl | hdone
    · exact canEnd_of_owed (owed_of_refusing hp)
    · exact .inl hdone
  | @write rest reason hp hmore hopen hroom =>
    have howed : owed { c with phase := .refusing (c.outbound.write rest).1 reason, outbound := (c.outbound.write rest).2 }
        = (c.outbound.write rest).1 := owed_of_refusing rfl
    rw [CanEnd, CanEnd, howed, owed_of_refusing hp]
    simp only [Pipe.write, hopen, Bool.false_eq_true, false_or, Pipe.room, List.length_drop, List.length_append,
      List.length_take] at hroom ⊢
    omega
  | read hp found =>
    refine hsame rfl ?_
    rw [owed_of_awaits (.inr (.inr hp)), owed_of_awaits (c := c.read) (.inr (.inr hp))]
    have hread : c.read.buffer.bytes ≠ [] := List.ne_nil_of_length_pos (Nat.zero_lt_of_lt (c.length_read found))
    simp [hread, found]
  | leave hp hunread hnothing =>
    refine iff_of_true (hclosed _) (canEnd_of_owed ?_)
    rw [owed_of_awaits (.inr (.inr hp)), hunread, hnothing]
    rfl
  | turnAway hp hfound =>
    refine hsame rfl ?_
    rw [owed_of_awaits (.inr (.inr hp)), owed_of_refusing rfl]
    simp [hfound, drainRefusal]

/-- A connection that has the room does not have to wait, but for time to pass. -/
theorem exists_step (rules : ConnectionRules) (now : Nat) (hs : status.isTerminated = true) (hc : c.CanEnd)
    (hopen : ∀ reason, c.phase ≠ .closed reason) :
    ∃ ms after, c.step rules (now + ms) status = some after := by
  have hstops := ShutdownState.isRunning_of_isTerminated hs
  cases hp : c.phase with
  | examining deadline | dispatching request => exact ⟨0, _, by rw [step, hp]⟩
  | reading deadline => exact ⟨0, _, by rw [step, hp]; simp only [awaitBytes, hstops, Bool.not_false, if_true]; rfl⟩
  | handling exchange deadline ends completion =>
    exact ⟨0, _, by rw [step, hp]; simp only [awaitHandler, hs, if_true]; rfl⟩
  | answering rest sequel => exact ⟨0, _, by rw [step, hp]; simp only [writeAnswer, hs, if_true]; rfl⟩
  | refusing rest reason =>
    refine ⟨0, ?_⟩
    rw [step, hp]
    simp only [writeRefusal]
    split
    · exact ⟨_, rfl⟩
    · next hmore =>
      simp only [Bool.or_eq_true, List.isEmpty_iff, not_or] at hmore
      obtain ⟨hrest, hopen⟩ := hmore
      have hroom : 0 < c.outbound.room := by
        have hle := hc.resolve_left hopen
        rw [owed_of_refusing hp] at hle
        exact Nat.lt_of_lt_of_le (List.length_pos_iff.2 hrest) hle
      rw [if_neg (Nat.ne_of_gt hroom)]
      exact ⟨_, rfl⟩
  | lingering deadline =>
    refine ⟨deadline, ?_⟩
    rw [step, hp]
    have hlate : deadline ≤ now + deadline := Nat.le_add_left ..
    simp only [linger, hlate, decide_true, Bool.or_true, if_true]
    split
    · exact ⟨_, rfl⟩
    · split <;> exact ⟨_, rfl⟩
  | closed reason => exact absurd hp (hopen reason)

end Connection

namespace Lifetime

/-! ## Left alone -/

/-- Nothing happens but steps of the connection, and time passes. -/
inductive Alone (rules : ConnectionRules) (t : Lifetime) : Lifetime → Prop
  | refl : Alone rules t t
  | step {u : Lifetime} {c : Connection} (before : Alone rules t u) (table : Table)
      (h : u.connection.step (rules.withTable table) u.now u.shutdown = some c) :
      Alone rules t (u.stepped (rules.withTable table).dispatcher c)
  | pass {u : Lifetime} (before : Alone rules t u) (ms : Nat) : Alone rules t { u with now := u.now + ms }

variable {rules : ConnectionRules} {t u v : Lifetime}

theorem Alone.trans (h : Alone rules t u) (h' : Alone rules u v) : Alone rules t v := by
  induction h' with
  | refl => exact h
  | step before table hstep ih => exact ih.step table hstep
  | pass before ms ih => exact ih.pass ms

/-- A connection that is left alone after the end of the shutdown has the room that it had. -/
theorem Alone.canEnd_iff (h : Alone rules t u) (hs : t.shutdown.isTerminated = true) :
    u.shutdown.isTerminated = true ∧ (u.connection.CanEnd ↔ t.connection.CanEnd) := by
  induction h with
  | refl => exact ⟨hs, .rfl⟩
  | step before table hstep ih =>
    obtain ⟨hstops, hsame⟩ := ih
    exact ⟨hstops, (Connection.step_parting hstops hstep).canEnd_iff.trans hsame⟩
  | pass before ms ih => exact ih

/-- Whoever has the room comes to the end. -/
theorem exists_closed (rules : ConnectionRules) (hs : t.shutdown.isTerminated = true) (hc : t.connection.CanEnd) :
    ∃ u reason, Alone rules t u ∧ u.connection.phase = .closed reason := by
  -- each step leaves less to do, and who has the room can always take another one
  induction hn : t.connection.load using Nat.strongRecOn generalizing t with
  | ind n ih =>
    by_cases hclosed : ∃ reason, t.connection.phase = .closed reason
    · obtain ⟨reason, hp⟩ := hclosed
      exact ⟨t, reason, .refl, hp⟩
    · obtain ⟨ms, c, hstep⟩ := Connection.exists_step (rules.withTable rules.dispatcher.table) t.now hs hc
        fun reason hp => hclosed ⟨reason, hp⟩
      have halone := (Alone.refl.pass ms).step rules.dispatcher.table hstep
      have hlt : c.load < n := hn ▸ (Connection.step_advance hstep).load_lt
      obtain ⟨u, reason, hu, hp⟩ := ih c.load hlt
        (t := { t with now := t.now + ms }.stepped (rules.withTable rules.dispatcher.table).dispatcher c) hs
        ((Connection.step_parting hs hstep).canEnd_iff.2 hc) rfl
      exact ⟨u, reason, halone.trans hu, hp⟩

/-- Once the shutdown has ended, a connection can come to its end by its own steps and the passing of time if and only
if its peer does not have to read: nothing is left to be written, there is room for all of it, or the peer is gone. -/
theorem closes_iff_canEnd (rules : ConnectionRules) (t : Lifetime) (hs : t.shutdown.isTerminated = true) :
    (∃ u reason, Alone rules t u ∧ u.connection.phase = .closed reason) ↔ t.connection.CanEnd := by
  constructor
  · rintro ⟨u, reason, hu, hp⟩
    exact (hu.canEnd_iff hs).2.1 (Connection.canEnd_of_owed (Connection.owed_of_closed hp))
  · exact exists_closed rules hs

/-- A peer has sent some bytes before the shutdown began, and the shutdown ends while the connection lingers: it is
going to refuse these bytes. -/
theorem exists_lingering (rules : ConnectionRules) (id : ConnectionId) {capacity : Nat} {b : Bytes} (hne : b ≠ [])
    (hcapacity : b.length ≤ capacity) :
    ∃ t, Run rules (start rules id capacity 0) t ∧ t.shutdown = .terminated ∧ t.connection.state = .draining ∧
      t.connection.owed = drainRefusal ∧ t.connection.outbound = .ofCapacity capacity := by
  have hfound : ((Pipe.ofCapacity capacity).send b).bytes.isEmpty = false := by
    rw [Pipe.send_of_empty rfl rfl hcapacity]
    exact List.isEmpty_eq_false_iff.2 hne
  have hsent : Run rules (start rules id capacity 0) _ := Run.refl.move (.send b rfl)
  have hbegun := hsent.move (.shutDown (.draining 10) nofun nofun nofun)
  have hlingers := hbegun.move (.step rules.dispatcher.table rfl)
  have hended := (hlingers.move (.pass 10)).move (.shutDown .terminated nofun nofun nofun)
  refine ⟨_, hended, rfl, rfl, ?_, rfl⟩
  rw [Connection.owed_of_awaits (.inr (.inr rfl))]
  refine if_neg ?_
  show ¬ (true && ((Pipe.ofCapacity capacity).send b).bytes.isEmpty) = true
  rw [hfound]
  decide

/-- A peer has sent a part of a request and says no more, and its pipe has room for the refusal. The connection, which
lingers when the shutdown ends, refuses the request and closes. -/
theorem closes_with_silent_peer :
    ∃ t, Run ⟨⟨.empty, ⟨0⟩⟩, 10, 64, false, Gzip.gzip⟩
        (start ⟨⟨.empty, ⟨0⟩⟩, 10, 64, false, Gzip.gzip⟩ ⟨1⟩ 1024 0) t ∧
      t.shutdown = .terminated ∧ t.connection.state = .draining ∧ t.connection.owed = drainRefusal ∧
      ∃ u reason, Alone ⟨⟨.empty, ⟨0⟩⟩, 10, 64, false, Gzip.gzip⟩ t u ∧ u.connection.phase = .closed reason := by
  obtain ⟨t, hrun, hended, hdraining, howed, houtbound⟩ :=
    exists_lingering ⟨⟨.empty, ⟨0⟩⟩, 10, 64, false, Gzip.gzip⟩ ⟨1⟩ (show Bytes.ofText "GET" ≠ [] by decide)
      (show _ ≤ 1024 by decide)
  have hroom : t.connection.owed.length ≤ t.connection.outbound.room := by
    rw [howed, houtbound]
    decide +kernel
  exact ⟨t, hrun, hended, hdraining, howed, (closes_iff_canEnd _ t (by rw [hended]; rfl)).2 (.inr hroom)⟩

/-- A peer has sent a part of a request and does not read. A connection that lingers refuses that request, and the
refusal does not fit into the pipe, so that the end of the shutdown does not close the connection. -/
theorem held_up_by_peer :
    ∃ t, Run ⟨⟨.empty, ⟨0⟩⟩, 10, 64, false, Gzip.gzip⟩
        (start ⟨⟨.empty, ⟨0⟩⟩, 10, 64, false, Gzip.gzip⟩ ⟨1⟩ 16 0) t ∧
      t.shutdown = .terminated ∧ t.connection.state = .draining ∧
      ∀ u reason, Alone ⟨⟨.empty, ⟨0⟩⟩, 10, 64, false, Gzip.gzip⟩ t u → u.connection.phase ≠ .closed reason := by
  obtain ⟨t, hrun, hended, hdraining, howed, houtbound⟩ :=
    exists_lingering ⟨⟨.empty, ⟨0⟩⟩, 10, 64, false, Gzip.gzip⟩ ⟨1⟩ (show Bytes.ofText "GET" ≠ [] by decide)
      (show _ ≤ 16 by decide)
  refine ⟨t, hrun, hended, hdraining, fun u reason hu hp => ?_⟩
  have hroom := (hu.canEnd_iff (by rw [hended]; rfl)).2.1 (Connection.canEnd_of_owed (Connection.owed_of_closed hp))
  have hshort : 16 < drainRefusal.length := by decide +kernel
  rw [Connection.CanEnd, howed, houtbound] at hroom
  rcases hroom with hclosed | hle
  · cases hclosed
  · exact Nat.not_le_of_lt hshort hle

end Lifetime

/-! ## Who is forced -/

/-- Whether a connection has been forced to end. -/
def Phase.isForced : Phase → Bool
  | .closed .forced => true
  | _ => false

/-- Whether a connection has been forced to end, or would be now. -/
def Phase.isDoomed (phase : Phase) : Bool := phase.works || phase.isForced

theorem Phase.isForced_iff {phase : Phase} : phase.isForced = true ↔ phase = .closed .forced := by
  unfold isForced
  split <;> simp_all

theorem Phase.isForced_of_works {phase : Phase} (h : phase.works = true) : phase.isForced = false := by
  cases phase with
  | closed reason => cases h
  | _ => rfl

namespace Connection

variable {rules : ConnectionRules} {now : Nat} {status : ShutdownState} {c after : Connection}

/-- One that works on a request is forced at once. -/
theorem step_of_works (hs : status.isTerminated = true) (h : c.phase.works = true) :
    c.step rules now status = some (c.finish .forced) := by
  unfold step
  split
  case h_3 hp => simp only [dispatch, hs, if_true]
  case h_4 hp => simp only [awaitHandler, hs, if_true]
  case h_5 hp => simp only [writeAnswer, hs, if_true]
  all_goals
    rename_i hp
    rw [hp] at h
    cases h

/-- Who does not work on a request does not begin to. -/
theorem Parting.works (h : Parting now c after) :
    c.phase.works = true ∧ after = c.finish .forced ∨
      c.phase.isDoomed = false ∧ after.phase.works = false := by
  cases h with
  | force hp => exact .inl ⟨hp, rfl⟩
  | drain hp =>
    refine .inr ⟨?_, rfl⟩
    rcases hp with hp | hp
    all_goals
      rw [hp]
      rfl
  | dismiss hp | write hp | leave hp | turnAway hp => exact .inr ⟨by rw [hp]; rfl, rfl⟩
  | read hp =>
    refine .inr ⟨by rw [hp]; rfl, ?_⟩
    show c.phase.works = false
    rw [hp]
    rfl

end Connection

namespace Lifetime

variable {rules : ConnectionRules} {t u : Lifetime} {c : Connection}

/-- Nobody is forced but who works on a request when the shutdown has ended. -/
theorem Orderly.works_of_forced (ho : t.Orderly rules) {table : Table}
    (hstep : t.connection.step (rules.withTable table) t.now t.shutdown = some c) (hc : c.phase.isForced = true) :
    t.connection.phase.works = true ∧ t.shutdown.isTerminated = true := by
  have hstands := ho.stands
  cases Connection.step_advance hstep with
  | force hp hs => exact ⟨hp, hs⟩
  | take hp =>
    rw [Connection.phase_move] at hc
    cases hc
  | linger hp =>
    change t.connection.phase.isForced = true at hc
    rw [hp] at hc
    cases hc
  | giveUp hp hs found why => rcases why with rfl | rfl <;> cases hc
  | @follow sequel hp hs =>
    cases sequel with
    | goOn | drain => cases hc
    | close reason => rcases ho.close_cases hp with rfl | rfl | rfl <;> cases hc
  | dismiss hp done =>
    rw [hp] at hstands
    obtain ⟨-, ⟨bytes, -, hrefuses⟩, -⟩ := hstands
    cases hrefuses <;> cases hc
  | _ => cases hc

/-- What happens after the end of the shutdown leaves alone who is forced, and writes nothing for him any more. -/
theorem Orderly.doomed_move (ho : t.Orderly rules) (hs : t.shutdown.isTerminated = true) (h : Move rules t u) :
    u.connection.phase.isDoomed = t.connection.phase.isDoomed ∧
    (t.connection.phase.isDoomed = true → u.written = t.written ∧
      (u.connection.phase = t.connection.phase ∨ u.connection.phase.isForced = true)) := by
  cases h with
  | @step c table hstep =>
    rcases (Connection.step_parting hs hstep).works with ⟨hworks, rfl⟩ | ⟨hdoomed, hworks⟩
    · refine ⟨?_, fun _ => ⟨rfl, .inr rfl⟩⟩
      show true = _
      rw [Phase.isDoomed, hworks]
      rfl
    · have hforced : c.phase.isForced = false := by
        refine Bool.eq_false_iff.2 fun hc => ?_
        have hworks' := (ho.works_of_forced hstep hc).1
        rw [Phase.isDoomed, hworks'] at hdoomed
        cases hdoomed
      refine ⟨?_, ?_⟩
      · show c.phase.isDoomed = _
        rw [hdoomed, Phase.isDoomed, hworks, hforced]
        rfl
      · rw [hdoomed]
        nofun
  | receive most =>
    have hread := t.connection.outbound.read_contents most
    have hwaiting := Pipe.waiting_read ho.waiting most
    simp only [Pipe.contents, hwaiting, ho.waiting, List.append_nil] at hread
    refine ⟨rfl, fun _ => ⟨?_, .inl rfl⟩⟩
    simp only [written, List.append_assoc, hread]
  | send | endSending | hangUp | pass | shutDown | reserve => exact ⟨rfl, fun _ => ⟨rfl, .inl rfl⟩⟩

/-- The shutdown does not go back. -/
theorem Move.ended (h : Move rules t u) (hs : t.shutdown.isTerminated = true) : u.shutdown = t.shutdown := by
  cases h with
  | shutDown next begun unended counted => exact absurd (ShutdownState.isTerminated_iff.1 hs) unended
  | _ => rfl

theorem Run.ended (h : Run rules t u) (hs : t.shutdown.isTerminated = true) : u.shutdown = t.shutdown := by
  induction h with
  | refl => rfl
  | move _ next ih => exact (next.ended (ih ▸ hs)).trans ih

/-- Nobody has been forced before the shutdown has ended. -/
theorem Run.ended_of_forced (h : Run rules t u) (ho : t.Orderly rules)
    (ht : t.connection.phase.isForced = true → t.shutdown.isTerminated = true)
    (hu : u.connection.phase.isForced = true) : u.shutdown.isTerminated = true := by
  induction h with
  | refl => exact ht hu
  | @move v w run next ih =>
    have hv := run.orderly ho
    cases next with
    | step table hstep => exact (hv.works_of_forced hstep hu).2
    | shutDown next begun unended counted => exact absurd (ShutdownState.isTerminated_iff.1 (ih hu)) unended
    | _ => exact ih hu

/-- Once the shutdown has ended, those who work on a request are forced without writing a byte, and nobody else is. -/
theorem Run.doomed (h : Run rules t u) (ho : t.Orderly rules) (hs : t.shutdown.isTerminated = true) :
    u.connection.phase.isDoomed = t.connection.phase.isDoomed ∧
    (t.connection.phase.isDoomed = true → u.written = t.written ∧
      (u.connection.phase = t.connection.phase ∨ u.connection.phase.isForced = true)) := by
  induction h with
  | refl => exact ⟨rfl, fun _ => ⟨rfl, .inl rfl⟩⟩
  | @move v w run next ih =>
    obtain ⟨hsame, hdoomed⟩ := ih
    have hv : v.shutdown.isTerminated = true := by
      rw [run.ended hs]
      exact hs
    obtain ⟨hsame', hdoomed'⟩ := (run.orderly ho).doomed_move hv next
    refine ⟨hsame'.trans hsame, fun hd => ?_⟩
    obtain ⟨hwritten, hp⟩ := hdoomed hd
    obtain ⟨hwritten', hp'⟩ := hdoomed' (hsame.trans hd)
    refine ⟨hwritten'.trans hwritten, ?_⟩
    rcases hp' with hp' | hp'
    · rw [hp']
      exact hp
    · exact .inr hp'

end Lifetime

end Hypertext
