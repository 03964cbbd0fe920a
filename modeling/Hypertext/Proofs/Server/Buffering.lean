/-
What a connection keeps. A connection asks its peer for bytes only while those that it has read and not used yet are
within the limit for requests, be it that it waits for a request or that it is about to end. What it holds at any time
is therefore no more than that and what one read has brought.
-/
import Hypertext.Proofs.Server.Drain
import Hypertext.Proofs.Server.RequestSize

namespace Hypertext

namespace Connection

/-- A connection asks for bytes: whatever comes next, it takes as much of it as its buffer has room for. -/
def Asks (rules : ConnectionRules) (now : Nat) (status : ShutdownState) (c : Connection) : Prop :=
  ∀ bytes ≠ [], ∃ after, step rules now status { c with inbound := { c.inbound with bytes } } = some after ∧
    after.buffer.bytes = c.buffer.bytes ++ bytes.take c.buffer.room

/-- What a connection that asks for bytes is doing: it waits for a request, or it is about to end and has read no more
than the limit. -/
def Awaits (rules : ConnectionRules) (status : ShutdownState) (c : Connection) : Prop :=
  ∃ deadline, c.phase = .reading deadline ∧ status.isRunning = true ∨
    c.phase = .lingering deadline ∧ c.buffer.bytes.length ≤ rules.maxRequestBytes

/-- A connection that waits for a request has no more than the limit in its buffer. -/
def Spare (rules : ConnectionRules) (c : Connection) : Prop :=
  ∀ deadline, c.phase = .reading deadline → c.buffer.bytes.length ≤ rules.maxRequestBytes

variable {c after : Connection} {rules : ConnectionRules} {now : Nat} {status : ShutdownState}

/-! ## What a step does to the buffer -/

theorem bytes_finish (reason : CloseReason) (c : Connection) : (c.finish reason).buffer.bytes <:+ c.buffer.bytes := by
  have hbuffer : (c.finish reason).buffer = c.buffer := buffer_move c _
  simp [hbuffer]

theorem bytes_leave (c : Connection) : c.leave.buffer.bytes <:+ c.buffer.bytes := by
  unfold leave
  split
  · exact bytes_finish _ c
  · exact List.nil_suffix

theorem bytes_drain (c : Connection) : (c.drain now).buffer.bytes <:+ c.buffer.bytes := by
  have hbuffer : (c.drain now).buffer = c.buffer := buffer_move c _
  simp [hbuffer]

theorem bytes_follow (sequel : Sequel) (c : Connection) :
    (follow rules now sequel c).buffer.bytes <:+ c.buffer.bytes := by
  cases sequel with
  | goOn =>
    have hbuffer : (follow rules now .goOn c).buffer = c.buffer := buffer_move c _
    simp [hbuffer]
  | drain => exact bytes_drain c
  | close reason => exact bytes_finish reason c

/-- A step reads what there is, or leaves in the buffer the last of the bytes that were there. -/
theorem bytes_step (h : c.step rules now status = some after) :
    after.buffer.bytes <:+ c.buffer.bytes ∨ c.Awaits rules status ∧ c.inbound.bytes ≠ [] ∧
      after.buffer.bytes = c.buffer.bytes ++ c.inbound.bytes.take c.buffer.room := by
  cases step_advance h with
  | drain => exact .inl (bytes_drain c)
  | wait | begin | write | writeRefusal => exact .inl (List.suffix_refl _)
  | take _ _ found =>
    rw [buffer_move]
    exact .inl (Admission.serve_suffix found)
  | refuse | turnAway => exact .inl List.nil_suffix
  | read hp hs found => exact .inr ⟨⟨_, .inl ⟨hp, hs⟩⟩, found, rfl⟩
  | @linger deadline hp found =>
    by_cases hle : c.buffer.bytes.length ≤ rules.maxRequestBytes
    · exact .inr ⟨⟨_, .inr ⟨hp, hle⟩⟩, found, rfl⟩
    -- one that has read more than the limit leaves
    · simp only [step, hp, linger, if_pos (Nat.lt_of_not_le hle), Option.some.injEq] at h
      rw [← h]
      exact .inl (bytes_leave c)
  | giveUp | force | breakOff | dismiss | leave => exact .inl (bytes_finish _ c)
  | answer | conclude =>
    rw [buffer_answer]
    exact .inl (List.suffix_refl _)
  | follow => exact .inl (bytes_follow _ _)

theorem asks_iff : c.Asks rules now status ↔ c.Awaits rules status := by
  constructor
  · intro h
    obtain ⟨after, hstep, hbytes⟩ := h [0] (by simp)
    have hroom := c.buffer.room_pos
    rcases bytes_step hstep with hsuffix | ⟨hawaits, -⟩
    · have hle := hsuffix.length_le
      rw [hbytes] at hle
      simp only [List.length_append, List.length_take, List.length_cons, List.length_nil] at hle
      omega
    · exact hawaits
  · rintro ⟨deadline, ⟨hp, hs⟩ | ⟨hp, hle⟩⟩ bytes hbytes
    · refine ⟨read { c with inbound := { c.inbound with bytes } } |>.await rules now, ?_, rfl⟩
      simp [step, hp, awaitBytes, hs, hbytes]
    · refine ⟨read { c with inbound := { c.inbound with bytes } }, ?_, rfl⟩
      simp [step, hp, linger, Nat.not_lt.2 hle, hbytes]

theorem Awaits.within (h : c.Awaits rules status) (hspare : c.Spare rules) :
    c.buffer.bytes.length ≤ rules.maxRequestBytes := by
  obtain ⟨deadline, ⟨hp, -⟩ | ⟨-, hle⟩⟩ := h
  · exact hspare deadline hp
  · exact hle

/-! ## Waiting with no more than the limit -/

theorem spare_of_phase (h : ∀ deadline, c.phase ≠ .reading deadline) : c.Spare rules :=
  fun deadline hp => absurd hp (h deadline)

/-- A connection begins to wait when what it has read is only the beginning of a request. -/
theorem spare_step (h : c.step rules now status = some after) : after.Spare rules := by
  cases step_advance h with
  | wait _ _ found =>
    intro deadline _
    exact Admission.length_le_of_wait found
  | take =>
    refine spare_of_phase fun deadline => ?_
    rw [phase_move]
    nofun
  | @follow sequel => cases sequel <;> exact spare_of_phase nofun
  | @linger deadline hp =>
    refine spare_of_phase fun deadline' hp' => ?_
    change c.phase = _ at hp'
    rw [hp] at hp'
    cases hp'
  | _ => exact spare_of_phase nofun

theorem spare_leave (c : Connection) : c.leave.Spare rules := by
  unfold leave
  split <;> exact spare_of_phase nofun

end Connection

namespace Lifetime

open Connection (bytes_step bytes_finish bytes_leave)

variable {rules : ConnectionRules} {t u v : Lifetime} {c : Connection} {broken : Bool} {piece : Bytes}

/-- A step that reads a piece. -/
def Reads (rules : ConnectionRules) (piece : Bytes) (t u : Lifetime) : Prop :=
  piece ≠ [] ∧ u.connection.buffer.bytes = t.connection.buffer.bytes ++ piece ∧
    ∃ table c, t.connection.step (rules.withTable table) t.now t.shutdown = some c ∧
      u = t.stepped (rules.withTable table).dispatcher c

/-! ## Reads that fail and writes that fail -/

theorem failRead_cases {status : ShutdownState} (h : t.connection.failRead status = some c) :
    (∃ reason, c = t.connection.finish reason) ∨ c = t.connection.leave := by
  unfold Connection.failRead at h
  split at h
  · split at h
    · cases h
      exact .inl ⟨_, rfl⟩
    · cases h
  · cases h
    exact .inr rfl
  · cases h

theorem failWrite_cases {status : ShutdownState} (h : t.connection.failWrite status = some c) :
    ∃ reason, c = t.connection.finish reason := by
  unfold Connection.failWrite at h
  split at h
  · split at h
    · cases h
    · cases h
      exact ⟨_, rfl⟩
  · cases h
    exact ⟨_, rfl⟩
  · cases h

/-! ## Whatever happens -/

theorem Move.spare (h : Move rules t u) (ht : t.connection.Spare rules) : u.connection.Spare rules := by
  cases h with
  | step table hstep =>
    have hspare := Connection.spare_step hstep
    exact hspare
  | _ => exact ht

theorem Course.spare (h : Course rules t broken u) (ht : t.connection.Spare rules) : u.connection.Spare rules := by
  induction h with
  | refl => exact ht
  | move _ next ih => exact next.spare ih
  | failRead _ hfail =>
    rcases failRead_cases hfail with ⟨reason, rfl⟩ | rfl
    · exact Connection.spare_of_phase nofun
    · exact Connection.spare_leave _
  | failWrite _ hfail =>
    obtain ⟨reason, rfl⟩ := failWrite_cases hfail
    exact Connection.spare_of_phase nofun

theorem spare_start (rules : ConnectionRules) (id : ConnectionId) (capacity now : Nat) :
    (start rules id capacity now).connection.Spare rules := Connection.spare_of_phase nofun

/-- A move reads, or leaves in the buffer the last of the bytes that were there. -/
theorem Move.bytes (h : Move rules t u) :
    u.connection.buffer.bytes <:+ t.connection.buffer.bytes ∨ ∃ piece, Reads rules piece t u := by
  cases h with
  | step table hstep =>
    rcases bytes_step hstep with hsuffix | ⟨-, hfound, hbytes⟩
    · exact .inl hsuffix
    · have hroom := t.connection.buffer.room_pos
      refine .inr ⟨_, ?_, hbytes, table, _, hstep, rfl⟩
      rw [Ne, List.take_eq_nil_iff]
      rintro (hzero | hnil)
      · omega
      · exact hfound hnil
  | _ => exact .inl (List.suffix_refl _)

/-- A read is one that the connection has asked for, and brings no more than there is room for. -/
theorem Reads.asks (h : Reads rules piece t u) :
    (∃ table, t.connection.Asks (rules.withTable table) t.now t.shutdown) ∧
      piece.length ≤ t.connection.buffer.room := by
  obtain ⟨hne, hpiece, table, c, hstep, rfl⟩ := h
  have hpos := List.length_pos_iff.2 hne
  have hlonger : c.buffer.bytes.length = t.connection.buffer.bytes.length + piece.length := by
    rw [← List.length_append]
    exact congrArg _ hpiece
  rcases bytes_step hstep with hsuffix | ⟨hawaits, -, hbytes⟩
  · have hle := hsuffix.length_le
    omega
  · refine ⟨⟨table, Connection.asks_iff.2 hawaits⟩, ?_⟩
    rw [hbytes, List.length_append, List.length_take] at hlonger
    omega

/-- What the connection holds at `t` is the last of what it held after it had read a piece. -/
def HoldsOf (rules : ConnectionRules) (s t : Lifetime) : Prop :=
  ∃ piece u v before after, Course rules s before u ∧ Reads rules piece u v ∧ Course rules v after t ∧
    t.connection.buffer.bytes <:+ v.connection.buffer.bytes

variable {s : Lifetime}

/-- What stays in the buffer was there before. -/
theorem HoldsOf.keep (h : t.connection.buffer.bytes = [] ∨ HoldsOf rules s t)
    (hcourse : ∀ {v broken}, Course rules v broken t → ∃ broken, Course rules v broken u)
    (hsuffix : u.connection.buffer.bytes <:+ t.connection.buffer.bytes) :
    u.connection.buffer.bytes = [] ∨ HoldsOf rules s u := by
  rcases h with hempty | ⟨piece, r, v, before, after, hbefore, hread, hafter, hheld⟩
  · rw [hempty] at hsuffix
    exact .inl (List.suffix_nil.1 hsuffix)
  · obtain ⟨after, hafter⟩ := hcourse hafter
    exact .inr ⟨piece, r, v, before, after, hbefore, hread, hafter, hsuffix.trans hheld⟩

/-- Whatever a connection holds it has read at some time. -/
theorem Course.holdsOf (h : Course rules s broken t) (hempty : s.connection.buffer.bytes = []) :
    t.connection.buffer.bytes = [] ∨ HoldsOf rules s t := by
  induction h with
  | refl => exact .inl hempty
  | move course next ih =>
    rcases next.bytes with hsuffix | ⟨piece, hread⟩
    · exact HoldsOf.keep ih (fun h => ⟨_, h.move next⟩) hsuffix
    · exact .inr ⟨piece, _, _, _, _, course, hread, .refl, List.suffix_refl _⟩
  | failRead course hfail ih =>
    refine HoldsOf.keep ih (fun h => ⟨_, h.failRead hfail⟩) ?_
    rcases failRead_cases hfail with ⟨reason, rfl⟩ | rfl
    · exact bytes_finish reason _
    · exact bytes_leave _
  | failWrite course hfail ih =>
    refine HoldsOf.keep ih (fun h => ⟨_, h.failWrite hfail⟩) ?_
    obtain ⟨reason, rfl⟩ := failWrite_cases hfail
    exact bytes_finish reason _

/-! ## Main result -/

/-- Whatever the peer sends and in whatever pieces it comes, however handlers end, whenever a shutdown begins, and be it
that reads and writes fail: while the connection asks for bytes its buffer holds no more than the limit for requests.
Only a read that it has asked for makes the buffer longer. So it never holds more than the limit and what one read has
brought, for which there was room. -/
theorem buffered_of_course {id : ConnectionId} {capacity now : Nat}
    (h : Course rules (start rules id capacity now) broken t) :
    (∀ table, t.connection.Asks (rules.withTable table) t.now t.shutdown →
      t.connection.buffer.bytes.length ≤ rules.maxRequestBytes) ∧
    (∀ u, Move rules t u → t.connection.buffer.bytes.length < u.connection.buffer.bytes.length →
      ∃ piece table, Reads rules piece t u ∧ t.connection.Asks (rules.withTable table) t.now t.shutdown) ∧
    (t.connection.buffer.bytes = [] ∨ ∃ piece u v before after,
      Course rules (start rules id capacity now) before u ∧
      Reads rules piece u v ∧ Course rules v after t ∧ piece.length ≤ u.connection.buffer.room ∧
      t.connection.buffer.bytes.length ≤ rules.maxRequestBytes + piece.length) := by
  have hwithin {u : Lifetime} {broken : Bool} (hu : Course rules (start rules id capacity now) broken u)
      (table : Table) (hasks : u.connection.Asks (rules.withTable table) u.now u.shutdown) :
      u.connection.buffer.bytes.length ≤ rules.maxRequestBytes :=
    (Connection.asks_iff.1 hasks).within (hu.spare (spare_start rules id capacity now))
  refine ⟨hwithin h, ?_, ?_⟩
  · intro u hmove hlonger
    rcases hmove.bytes with hsuffix | ⟨piece, hread⟩
    · have hle := hsuffix.length_le
      omega
    · obtain ⟨⟨table, hasks⟩, -⟩ := hread.asks
      exact ⟨piece, table, hread, hasks⟩
  · refine (h.holdsOf rfl).imp_right ?_
    rintro ⟨piece, u, v, before, after, hbefore, hread, hafter, hheld⟩
    obtain ⟨⟨table, hasks⟩, hroom⟩ := hread.asks
    have hlimit := hwithin hbefore table hasks
    have hle := hheld.length_le
    rw [hread.2.1, List.length_append] at hle
    exact ⟨piece, u, v, before, after, hbefore, hread, hafter, hroom, by omega⟩

/-- Half a request has come: the connection holds it and asks for more. -/
theorem buffered_of_half_request :
    let rules : ConnectionRules := ⟨⟨.empty, ⟨0⟩⟩, 10, 16, false, Gzip.gzip⟩
    ∃ t, Course rules (start rules ⟨1⟩ 1024 0) false t ∧ t.connection.buffer.bytes = Bytes.ofText "GET /" ∧
      t.connection.Asks rules t.now t.shutdown ∧ t.connection.buffer.bytes.length ≤ 16 := by
  intro rules
  let b := Bytes.ofText "GET /"
  let c₁ : Connection := { Connection.accept ⟨1⟩ 1024 0 rules with inbound := ⟨1024, b, [], false⟩ }
  let c₂ : Connection := { c₁ with phase := .reading 10 }
  let c₃ := c₂.read.await rules 0
  let c₄ : Connection := { c₃ with phase := .reading 10 }
  let t (c : Connection) : Lifetime := ⟨c, 0, .running, b, [], [], [], false⟩
  have hstep {c d : Connection} (h : c.step rules 0 .running = some d) (hquiet : c.Quiet d) :
      Move rules (t c) (t d) := by
    have hmove : Move rules (t c) ((t c).stepped rules.dispatcher d) := .step .empty h
    rw [stepped_of_quiet hquiet] at hmove
    exact hmove
  have hwait : c₃.step rules 0 .running = some c₄ := rfl
  have hcourse : Course rules (start rules ⟨1⟩ 1024 0) false (t c₄) :=
    ((((Course.refl.whole (.send b rfl) rfl).whole (hstep (d := c₂) rfl (Connection.quiet_of_works rfl)) rfl).whole
      (hstep (d := c₃) rfl (Connection.quiet_of_works rfl)) rfl).whole
        (hstep hwait (Connection.quiet_of_works rfl)) rfl)
  have hasks : c₄.Asks rules 0 .running := Connection.asks_iff.2 ⟨10, .inl ⟨rfl, rfl⟩⟩
  obtain ⟨hlimit, -, -⟩ := buffered_of_course hcourse
  exact ⟨t c₄, hcourse, rfl, hasks, hlimit .empty hasks⟩

end Lifetime

end Hypertext
