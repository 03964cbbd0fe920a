/-
Silence: when a connection gives up a peer from which nothing comes. Lifetimes are watched with a clock that goes on only
while the connection has nothing to do, so that whatever it can do is done at the moment at which it can be done.

A connection has a deadline while it waits for a request, and the invariant says which one it is: so much later than the
last arrival of bytes, or than the beginning of the wait if none have come since.
-/
import Hypertext.Proofs.Server.Conversation
import Hypertext.Proofs.Server.Lifetime

namespace Hypertext

/-! ## Bytes that come -/

/-- A pipe in which nothing is left stays empty only if nothing comes. -/
theorem Pipe.bytes_send_eq_nil_iff {p : Pipe} (hsettled : p.Settled) (hopen : p.closed = false)
    (hcapacity : 0 < p.capacity) {piece : Bytes} : (p.send piece).bytes = [] ↔ p.bytes = [] ∧ piece = [] := by
  have hbytes : (p.send piece).bytes = p.bytes ++ (p.waiting ++ piece).take p.room := by
    rw [send_of_open hopen, refill, if_neg (by simp [hopen])]
    rfl
  rw [hbytes, List.append_eq_nil_iff]
  refine and_congr_right fun hempty => ?_
  have hroom : p.room = p.capacity := by rw [room, hempty, List.length_nil, Nat.sub_zero]
  rw [hsettled.waiting_eq_nil hcapacity hempty, List.nil_append, hroom, List.take_eq_nil_iff]
  exact or_iff_right (by omega)

/-! ## Deadlines -/

/-- Whether a phase waits for a request, or looks at what has come of it. -/
def Phase.awaits : Phase → Bool
  | .examining _ | .reading _ => true
  | _ => false

namespace Connection

variable {rules : ConnectionRules} {now quiet : Nat} {c c' after : Connection}

/-- The deadline of a connection whose peer has been silent since the time `quiet`. What has come at this moment is looked
at in it. -/
def Timely (rules : ConnectionRules) (now quiet : Nat) (c : Connection) : Prop :=
  match c.phase with
  | .examining deadline => quiet = now ∧ deadline = now + rules.idleTimeout
  | .reading deadline =>
    Admission.ofBuffer rules.maxRequestBytes c.buffer.bytes = .wait ∧ now ≤ deadline ∧
      (c.inbound.bytes ≠ [] → quiet = now) ∧
        (c.inbound.bytes = [] → c.inbound.closed = false → deadline = quiet + rules.idleTimeout)
  | .answering _ sequel => sequel ≠ .close .idleTimeout
  | .refusing _ reason => reason ≠ .idleTimeout
  | _ => True

theorem Timely.examining (h : c.Timely rules now quiet) {deadline : Nat} (hp : c.phase = .examining deadline) :
    quiet = now ∧ deadline = now + rules.idleTimeout := by
  rwa [Timely, hp] at h

theorem Timely.reading (h : c.Timely rules now quiet) {deadline : Nat} (hp : c.phase = .reading deadline) :
    Admission.ofBuffer rules.maxRequestBytes c.buffer.bytes = .wait ∧ now ≤ deadline ∧
      (c.inbound.bytes ≠ [] → quiet = now) ∧
        (c.inbound.bytes = [] → c.inbound.closed = false → deadline = quiet + rules.idleTimeout) := by
  rwa [Timely, hp] at h

theorem Timely.answering (h : c.Timely rules now quiet) {rest : Bytes} {sequel : Sequel}
    (hp : c.phase = .answering rest sequel) : sequel ≠ .close .idleTimeout := by
  rwa [Timely, hp] at h

theorem Timely.refusing (h : c.Timely rules now quiet) {rest : Bytes} {reason : CloseReason}
    (hp : c.phase = .refusing rest reason) : reason ≠ .idleTimeout := by
  rwa [Timely, hp] at h

theorem timely_move (next : ConnectionState) : (c.move next).Timely rules now quiet ↔ c.Timely rules now quiet := by
  unfold move
  split <;> rfl

/-- No answer is a reason to give up a silent peer. -/
theorem timely_answer (status : ShutdownState) (outcome : Except DispatchError Response) (x : Exchange) (c : Connection) :
    (c.answer status outcome x).Timely rules now quiet := by
  show (x.answer status.isRunning outcome).sequel ≠ .close .idleTimeout
  intro hsequel
  rcases Exchange.answer_close hsequel with hreason | hreason | hreason <;> cases hreason

/-- A connection that does not wait for a request minds no arrivals. -/
theorem Timely.of_not_awaits {now' quiet' : Nat} (h : c.Timely rules now quiet) (hphase : c'.phase = c.phase)
    (hawaits : c.phase.awaits = false) : c'.Timely rules now' quiet' := by
  cases hp : c.phase with
  | examining deadline => rw [hp] at hawaits; cases hawaits
  | reading deadline => rw [hp] at hawaits; cases hawaits
  | _ =>
    rw [Timely, hp] at h
    rw [Timely, hphase, hp]
    exact h

/-- Nothing is read, and nothing comes. -/
theorem Timely.congr (h : c.Timely rules now quiet) (hphase : c'.phase = c.phase)
    (hbuffer : c'.buffer.bytes = c.buffer.bytes) (hempty : c'.inbound.bytes = [] ↔ c.inbound.bytes = [])
    (hopen : c'.inbound.closed = false → c.inbound.closed = false) : c'.Timely rules now quiet := by
  cases hp : c.phase with
  | reading deadline =>
    obtain ⟨hwait, hle, hunread, hdeadline⟩ := h.reading hp
    rw [Timely, hphase, hp]
    exact ⟨hbuffer ▸ hwait, hle, fun hbytes => hunread (mt hempty.2 hbytes),
      fun hbytes hopen' => hdeadline (hempty.1 hbytes) (hopen hopen')⟩
  | examining deadline =>
    rw [Timely, hphase, hp]
    exact h.examining hp
  | _ => exact h.of_not_awaits hphase (by rw [hp]; rfl)

/-- Bytes that come end the silence. -/
theorem Timely.arrive (h : c.Timely rules now quiet) (hphase : c'.phase = c.phase)
    (hbuffer : c'.buffer.bytes = c.buffer.bytes) (hbytes : c'.inbound.bytes ≠ []) : c'.Timely rules now now := by
  cases hp : c.phase with
  | examining deadline =>
    rw [Timely, hphase, hp]
    exact ⟨rfl, (h.examining hp).2⟩
  | reading deadline =>
    obtain ⟨hwait, hle, -, -⟩ := h.reading hp
    rw [Timely, hphase, hp]
    exact ⟨hbuffer ▸ hwait, hle, fun _ => rfl, fun hempty => absurd hempty hbytes⟩
  | _ => exact h.of_not_awaits hphase (by rw [hp]; rfl)

/-- A step keeps to the deadlines. A connection that begins to wait does so at this moment. -/
theorem Timely.step (h : c.Timely rules now quiet) (hstep : Advance rules now .running c after) :
    after.Timely rules now (if after.phase.awaits && !c.phase.awaits then now else quiet) := by
  cases hstep with
  | drain _ stops => cases stops
  | wait hp _ found =>
    obtain ⟨hquiet, hdeadline⟩ := h.examining hp
    rw [hp]
    exact ⟨found, by omega, fun _ => hquiet, fun _ _ => by rw [hdeadline, ← hquiet]; rfl⟩
  | take => exact (timely_move _).2 trivial
  | refuse _ _ found =>
    show _ ≠ _
    rintro rfl
    exact Admission.refuse_ne_idleTimeout found
  | read hp _ found =>
    obtain ⟨-, -, hunread, -⟩ := h.reading hp
    rw [hp]
    exact ⟨hunread found, rfl⟩
  | giveUp | force | breakOff | dismiss | leave | begin => trivial
  | answer | conclude => exact timely_answer _ _ _ _
  | @follow sequel hp =>
    cases sequel with
    | goOn =>
      rw [hp]
      exact ⟨rfl, rfl⟩
    | drain | close reason => trivial
  | write hp => exact h.answering hp
  | writeRefusal hp => exact h.refusing hp
  | linger hp => rw [Timely, show c.read.phase = _ from hp]; trivial
  | turnAway => show _ ≠ _; nofun

/-- While the connection has nothing to do time passes, up to its deadline. -/
theorem Timely.tick (h : c.Timely rules now quiet) (hwaits : c.step rules now .running = none) :
    c.Timely rules (now + 1) quiet := by
  cases hp : c.phase with
  | examining deadline =>
    rw [Connection.step, hp] at hwaits
    cases hwaits
  | reading deadline =>
    obtain ⟨hwait, -, -, hdeadline⟩ := h.reading hp
    simp only [Connection.step, hp, awaitBytes, ShutdownState.isRunning, Bool.not_true, Bool.false_eq_true, if_false,
      Bool.not_eq_true', List.isEmpty_eq_false_iff] at hwaits
    split_ifs at hwaits with hunread hclosed hlate
    rw [Timely, hp]
    exact ⟨hwait, by omega, fun hbytes => absurd hbytes hunread, hdeadline⟩
  | _ => exact h.of_not_awaits rfl (by rw [hp]; rfl)

/-- Only a connection that reads gives up a silent peer. -/
theorem Timely.reads_of_idle (h : c.Timely rules now quiet) (hstep : Advance rules now .running c after)
    (hidle : after.phase = .closed .idleTimeout) : ∃ deadline, c.phase = .reading deadline := by
  cases hstep with
  | drain _ stops => cases stops
  | force _ stops => cases stops
  | take => cases (phase_move _ _).symm.trans hidle
  | giveUp hp => exact ⟨_, hp⟩
  | @follow sequel hp =>
    cases sequel with
    | goOn | drain => cases hidle
    | close reason =>
      cases hidle
      exact absurd rfl (h.answering hp)
  | dismiss hp =>
    cases hidle
    exact absurd rfl (h.refusing hp)
  | linger hp => cases hp.symm.trans hidle
  | _ => cases hidle

theorem awaitBytes_idle_iff {deadline : Nat} :
    (∃ after, c.awaitBytes rules now .running deadline = some after ∧ after.phase = .closed .idleTimeout) ↔
      c.inbound.bytes = [] ∧ c.inbound.closed = false ∧ deadline ≤ now := by
  simp only [awaitBytes, ShutdownState.isRunning, Bool.not_true, Bool.false_eq_true, if_false, Bool.not_eq_true',
    List.isEmpty_eq_false_iff]
  constructor
  · rintro ⟨after, hafter, hidle⟩
    split_ifs at hafter with hunread hclosed hlate
    · cases hafter
      cases hidle
    · cases hafter
      cases hidle
    · exact ⟨Decidable.not_not.1 hunread, by simpa using hclosed, hlate⟩
  · rintro ⟨hempty, hopen, hlate⟩
    rw [if_neg (Decidable.not_not.2 hempty), if_neg (by simp [hopen]), if_pos hlate]
    exact ⟨_, rfl, rfl⟩

end Connection

/-! ## Watched lifetimes -/

/-- A lifetime with a watch: when the connection last began to wait for a request, and when bytes last came, or it was
accepted if none have come. -/
structure Watch where
  life : Lifetime
  since : Nat
  arrived : Nat

namespace Watch

variable {rules : ConnectionRules} {capacity : Nat} {w v : Watch} {u : Lifetime}

def start (rules : ConnectionRules) (id : ConnectionId) (capacity now : Nat) : Watch :=
  ⟨.start rules id capacity now, now, now⟩

/-- The time of the last arrival, or of the beginning of the wait if that was later. -/
def quietSince (w : Watch) : Nat := max w.since w.arrived

/-- The watch after something has happened at this moment. -/
def after (u : Lifetime) (w : Watch) : Watch where
  life := u
  since := if u.connection.phase.awaits && !w.life.connection.phase.awaits then u.now else w.since
  arrived := if u.sent = w.life.sent then w.arrived else u.now

/-- What can happen while no shutdown begins: the connection or its peer does something at this moment, or the connection
has nothing to do and time passes. -/
inductive Move (rules : ConnectionRules) (w : Watch) : Watch → Prop
  | act {u : Lifetime} (next : Lifetime.Move rules w.life u) (running : u.shutdown = .running)
      (moment : u.now = w.life.now) : Move rules w (w.after u)
  | tick (waits : w.life.connection.step rules w.life.now .running = none) :
      Move rules w { w with life := { w.life with now := w.life.now + 1 } }

/-- Moves one after another. -/
inductive Run (rules : ConnectionRules) (w : Watch) : Watch → Prop
  | refl : Run rules w w
  | move {v v' : Watch} (run : Run rules w v) (next : Move rules v v') : Run rules w v'

/-- The connection waits for a request, of which no end has come and nothing to refuse, and its peer can still send. -/
structure Waits (rules : ConnectionRules) (w : Watch) : Prop where
  reading : ∃ deadline, w.life.connection.phase = .reading deadline
  unfinished : Admission.ofBuffer rules.maxRequestBytes w.life.connection.buffer.bytes = .wait
  nothing : w.life.connection.inbound.bytes = []
  opened : w.life.connection.inbound.closed = false

/-- What holds at every moment while no shutdown begins. -/
structure Sound (rules : ConnectionRules) (capacity : Nat) (w : Watch) : Prop where
  piped : w.life.Piped capacity
  running : w.life.shutdown = .running
  since : w.since ≤ w.life.now
  arrived : w.arrived ≤ w.life.now
  timely : w.life.connection.Timely rules w.life.now w.quietSince

theorem sound_start (rules : ConnectionRules) (id : ConnectionId) (capacity now : Nat) :
    (start rules id capacity now).Sound rules capacity where
  piped := Lifetime.piped_start rules id capacity now
  running := rfl
  since := Nat.le_refl _
  arrived := Nat.le_refl _
  timely := ⟨Nat.max_self now, rfl⟩

/-- The watch does not mind what the peer does, but for what it sends. -/
theorem quietSince_after (hphase : u.connection.phase = w.life.connection.phase) (hsent : u.sent = w.life.sent) :
    (w.after u).quietSince = w.quietSince := by
  rw [quietSince, after, hphase, Bool.and_not_self, if_pos hsent]
  rfl

theorem Sound.timely_send (h : w.Sound rules capacity) (hcapacity : 0 < capacity)
    (hopen : w.life.connection.inbound.closed = false) (piece : Bytes) :
    let u := { w.life with
      connection := { w.life.connection with inbound := w.life.connection.inbound.send piece }
      sent := w.life.sent ++ piece }
    u.connection.Timely rules u.now (w.after u).quietSince := by
  intro u
  have hempty : u.connection.inbound.bytes = [] ↔ w.life.connection.inbound.bytes = [] ∧ piece = [] :=
    Pipe.bytes_send_eq_nil_iff (h.piped.settled hopen) hopen (h.piped.inbound ▸ hcapacity)
  by_cases hpiece : piece = []
  · have hquiet : (w.after u).quietSince = w.quietSince := quietSince_after rfl (by simp [u, hpiece])
    rw [hquiet]
    exact h.timely.congr rfl rfl (hempty.trans (and_iff_left hpiece)) fun _ => hopen
  · have hquiet : (w.after u).quietSince = w.life.now := by
      have hphase : u.connection.phase = w.life.connection.phase := rfl
      have hsent : u.sent ≠ w.life.sent := fun heq => hpiece (List.append_right_eq_self.1 heq)
      rw [quietSince, after, hphase, Bool.and_not_self, if_neg hsent]
      exact Nat.max_eq_right h.since
    rw [hquiet]
    exact h.timely.arrive rfl rfl fun hbytes => hpiece (hempty.1 hbytes).2

theorem Sound.timely_act (h : w.Sound rules capacity) (hcapacity : 0 < capacity) (next : Lifetime.Move rules w.life u)
    (hrunning : u.shutdown = .running) (hmoment : u.now = w.life.now) :
    u.connection.Timely rules u.now (w.after u).quietSince := by
  -- what is neither a step nor an arrival changes nothing that matters
  have hsame : u.connection.phase = w.life.connection.phase → u.sent = w.life.sent →
      u.connection.buffer.bytes = w.life.connection.buffer.bytes →
        u.connection.inbound.bytes = w.life.connection.inbound.bytes →
          (u.connection.inbound.closed = false → w.life.connection.inbound.closed = false) →
            u.connection.Timely rules u.now (w.after u).quietSince := by
    intro hphase hsent hbuffer hbytes hopen
    rw [quietSince_after hphase hsent, hmoment]
    exact h.timely.congr hphase hbuffer (hbytes ▸ Iff.rfl) hopen
  cases next with
  | @step c table hstep =>
    rw [h.running] at hstep
    have htimely : w.life.connection.Timely (rules.withTable table) w.life.now w.quietSince := h.timely
    have hquiet : (w.after (w.life.stepped (rules.withTable table).dispatcher c)).quietSince =
        if c.phase.awaits && !w.life.connection.phase.awaits then w.life.now else w.quietSince := by
      have harrived := h.arrived
      show max (if c.phase.awaits && !w.life.connection.phase.awaits then w.life.now else w.since)
        (if w.life.sent = w.life.sent then w.arrived else w.life.now) = _
      rw [if_pos rfl]
      split
      · exact Nat.max_eq_left harrived
      · rfl
    rw [hquiet]
    exact htimely.step (Connection.step_advance hstep)
  | send piece hopen => exact h.timely_send hcapacity hopen piece
  | endSending => exact hsame rfl rfl rfl rfl nofun
  | hangUp => exact hsame rfl rfl rfl rfl nofun
  | receive most => exact hsame rfl rfl rfl rfl id
  | pass ms => exact hsame rfl rfl rfl rfl id
  | shutDown next begun => exact absurd hrunning begun
  | reserve capacity gap => exact hsame rfl rfl rfl rfl id

theorem Sound.move (h : w.Sound rules capacity) (hcapacity : 0 < capacity) (hmove : Move rules w v) :
    v.Sound rules capacity := by
  cases hmove with
  | act next running moment =>
    refine ⟨h.piped.move next, running, ?_, ?_, h.timely_act hcapacity next running moment⟩
    · have hsince := h.since
      show (if _ then _ else _) ≤ _
      split
      · exact Nat.le_refl _
      · exact moment ▸ hsince
    · have harrived := h.arrived
      show (if _ then _ else _) ≤ _
      split
      · exact moment ▸ harrived
      · exact Nat.le_refl _
  | tick waits =>
    have hpass : Lifetime.Move rules w.life { w.life with now := w.life.now + 1 } := .pass 1
    exact ⟨h.piped.move hpass, h.running, Nat.le_succ_of_le h.since, Nat.le_succ_of_le h.arrived, h.timely.tick waits⟩

theorem Run.sound (hrun : Run rules w v) (hcapacity : 0 < capacity) (h : w.Sound rules capacity) :
    v.Sound rules capacity := by
  induction hrun with
  | refl => exact h
  | move _ next ih => exact ih.move hcapacity next

/-! ## When a silent peer is given up -/

theorem Sound.deadline (h : w.Sound rules capacity) (hwaits : w.Waits rules) {deadline : Nat}
    (hp : w.life.connection.phase = .reading deadline) :
    deadline = w.quietSince + rules.idleTimeout ∧ w.life.now ≤ deadline := by
  obtain ⟨-, hle, -, hdeadline⟩ := h.timely.reading hp
  exact ⟨hdeadline hwaits.nothing hwaits.opened, hle⟩

/-- The next step gives the peer up exactly if the connection waits and there has been nothing for as long as the rules
say. -/
theorem Sound.closes_iff (h : w.Sound rules capacity) (table : Table) :
    (∃ c, w.life.connection.step (rules.withTable table) w.life.now .running = some c ∧ c.phase = .closed .idleTimeout) ↔
      w.Waits rules ∧ w.quietSince + rules.idleTimeout = w.life.now := by
  constructor
  · rintro ⟨c, hstep, hidle⟩
    have htimely : w.life.connection.Timely (rules.withTable table) w.life.now w.quietSince := h.timely
    obtain ⟨deadline, hp⟩ := htimely.reads_of_idle (Connection.step_advance hstep) hidle
    rw [Connection.step, hp] at hstep
    obtain ⟨hnothing, hopen, hlate⟩ := Connection.awaitBytes_idle_iff.1 ⟨c, hstep, hidle⟩
    have hwaits : w.Waits rules := ⟨⟨deadline, hp⟩, (h.timely.reading hp).1, hnothing, hopen⟩
    obtain ⟨hdeadline, hle⟩ := h.deadline hwaits hp
    exact ⟨hwaits, by omega⟩
  · rintro ⟨hwaits, hnow⟩
    obtain ⟨deadline, hp⟩ := hwaits.reading
    obtain ⟨hdeadline, -⟩ := h.deadline hwaits hp
    rw [Connection.step, hp]
    exact Connection.awaitBytes_idle_iff.2 ⟨hwaits.nothing, hwaits.opened, by omega⟩

/-- A connection has the phase of the step that it has taken, or the one it had. -/
theorem phase_of_move (next : Lifetime.Move rules w.life u) :
    u.connection.phase = w.life.connection.phase ∨
      ∃ table c, w.life.connection.step (rules.withTable table) w.life.now w.life.shutdown = some c ∧
        u.connection = c := by
  cases next with
  | @step c table hstep => exact .inr ⟨table, c, hstep, rfl⟩
  | _ => exact .inl rfl

/-- A peer that has been given up was silent for that long before. -/
theorem Run.exists_silence (hrun : Run rules w v) (hcapacity : 0 < capacity) (h : w.Sound rules capacity)
    (hbefore : w.life.connection.phase ≠ .closed .idleTimeout) (hidle : v.life.connection.phase = .closed .idleTimeout) :
    ∃ t, Run rules w t ∧ Run rules t v ∧ t.Waits rules ∧ t.quietSince + rules.idleTimeout = t.life.now := by
  induction hrun with
  | refl => exact absurd hidle hbefore
  | @move v v' hrun next ih =>
    have hlater : v.life.connection.phase = .closed .idleTimeout → ∃ t, Run rules w t ∧ Run rules t v' ∧ t.Waits rules ∧
        t.quietSince + rules.idleTimeout = t.life.now := by
      intro hv
      obtain ⟨t, hto, hfrom, ht⟩ := ih hv
      exact ⟨t, hto, hfrom.move next, ht⟩
    have hsound : v.Sound rules capacity := hrun.sound hcapacity h
    cases hnext : next with
    | tick => exact hlater hidle
    | act hact running moment =>
      rcases phase_of_move hact with hsame | ⟨table, c, hstep, rfl⟩
      · exact hlater (hsame ▸ hidle)
      · rw [hsound.running] at hstep
        exact ⟨v, hrun, Run.refl.move next, (hsound.closes_iff table).1 ⟨_, hstep, hidle⟩⟩

/-- While no shutdown begins, a connection ends for its idle timeout at exactly those moments at which it waits for a
request, the bytes that it has are neither a request nor to be refused, and the last arrival, or the beginning of the wait
if that was later, is as long ago as the rules say. It never waits longer, and if it has ended for its idle timeout there
was such a moment. -/
theorem idle_timeout_exact {id : ConnectionId} {now : Nat} (hcapacity : 0 < capacity)
    (hrun : Run rules (start rules id capacity now) w) :
    (∀ table, (∃ c, w.life.connection.step (rules.withTable table) w.life.now .running = some c ∧
        c.phase = .closed .idleTimeout) ↔ w.Waits rules ∧ w.quietSince + rules.idleTimeout = w.life.now) ∧
      (w.Waits rules → w.life.now ≤ w.quietSince + rules.idleTimeout) ∧
        (w.life.connection.phase = .closed .idleTimeout →
          ∃ t, Run rules (start rules id capacity now) t ∧ Run rules t w ∧ t.Waits rules ∧
            t.quietSince + rules.idleTimeout = t.life.now) := by
  have hstart := sound_start rules id capacity now
  have hsound := hrun.sound hcapacity hstart
  refine ⟨hsound.closes_iff, fun hwaits => ?_, hrun.exists_silence hcapacity hstart nofun⟩
  obtain ⟨deadline, hp⟩ := hwaits.reading
  obtain ⟨hdeadline, hle⟩ := hsound.deadline hwaits hp
  exact hdeadline ▸ hle

/-- Nothing may be silent for longer than two milliseconds. -/
def hasty : ConnectionRules := ⟨⟨.empty, .ofMillis 1000⟩, 2, 1000, false, Gzip.gzip⟩

theorem unfinished_letter : Admission.ofBuffer hasty.maxRequestBytes [71] = .wait := by rfl

/-- A connection that waits from 0 on, and to which a letter comes at 1, ends at 3. -/
theorem idle_timeout_after_letter :
    ∃ w c, Run hasty (start hasty ⟨1⟩ 8 0) w ∧ w.life.sent = [71] ∧ w.since = 0 ∧ w.arrived = 1 ∧
      w.life.now = 3 ∧ w.life.connection.step hasty 3 .running = some c ∧ c.phase = .closed .idleTimeout := by
  have h1 : Run hasty (start hasty ⟨1⟩ 8 0) _ := Run.refl.move (.act (.step .empty rfl) rfl rfl)
  have h2 := (h1.move (.tick rfl)).move (.act (.send [71] rfl) rfl rfl)
  have h3 := h2.move (.act (.step .empty rfl) rfl rfl)
  have h4 := h3.move (.act (.step .empty rfl) rfl rfl)
  have h5 := (h4.move (.tick rfl)).move (.tick rfl)
  obtain ⟨hcloses, -, -⟩ := idle_timeout_exact (by decide) h5
  obtain ⟨c, hstep, hidle⟩ := (hcloses .empty).2 ⟨⟨⟨3, rfl⟩, unfinished_letter, rfl, rfl⟩, rfl⟩
  exact ⟨_, c, h5, rfl, rfl, rfl, rfl, hstep, hidle⟩

end Watch

end Hypertext
