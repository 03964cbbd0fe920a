/-
Answers in order, and what follows them. Over a whole lifetime the answers are those to the dispatched requests, one
after another; each says whether the connection is kept, and the connection does what it says: after an answer that
keeps it the next request is awaited, and after any other no request is dispatched any more.
-/
import Hypertext.Proofs.Server.Ledger

namespace Hypertext

/-! ## One step of a connection -/

namespace Connection

/-- Of two connections the same has been dispatched, counted, answered, refused and written. -/
def SameAccount (c d : Connection) : Prop :=
  c.dispatched = d.dispatched ∧ c.served = d.served ∧ c.answered = d.answered ∧ c.refused = d.refused ∧
    c.outbound.bytes = d.outbound.bytes ∧ c.outbound.waiting = d.outbound.waiting

variable {c d : Connection}

theorem SameAccount.refl (c : Connection) : c.SameAccount c := ⟨rfl, rfl, rfl, rfl, rfl, rfl⟩

theorem sameAccount_move (c : Connection) (next : ConnectionState) : (c.move next).SameAccount c :=
  ⟨dispatched_move c next, served_move c next, answered_move c next, refused_move c next,
    congrArg Pipe.bytes (outbound_move c next), congrArg Pipe.waiting (outbound_move c next)⟩

theorem sameAccount_finish (c : Connection) (reason : CloseReason) : (c.finish reason).SameAccount c :=
  ⟨dispatched_finish c reason, served_move c .closed, answered_move c .closed, refused_move c .closed, rfl, rfl⟩

end Connection

namespace Lifetime

def ledger (t : Lifetime) : Ledger where
  calls := t.calls
  sampled := t.sampled
  served := t.connection.served
  answered := t.connection.answered
  refused := t.connection.refused
  written := t.written

/-- The calls are those of the requests that the history tells of, and nothing waits for room to be written. -/
structure Sound (t : Lifetime) : Prop where
  calls : t.calls.map (·.request) = t.connection.dispatched
  waiting : t.connection.outbound.waiting = []

/-- The ledger is in order for what the connection is doing. -/
structure Orderly (rules : ConnectionRules) (t : Lifetime) : Prop extends t.Sound where
  stands : t.ledger.Stands rules t.shutdown t.connection.phase

variable {rules : ConnectionRules} {t u : Lifetime} {c : Connection} {dispatcher : Dispatcher}

theorem orderly_start (id : ConnectionId) (capacity now : Nat) : (start rules id capacity now).Orderly rules where
  calls := rfl
  waiting := rfl
  stands := by
    refine ⟨⟨rfl, rfl, rfl, rfl, List.prefix_refl _, ?_⟩, rfl, ?_⟩
    · rintro a ⟨⟩
    · rintro a ⟨⟩

/-- A step that leaves the ledger as it is. -/
theorem orderly_keep (ht : t.Sound) (hsame : c.SameAccount t.connection) (hquiet : t.connection.Quiet c)
    (hstands : t.ledger.Stands rules t.shutdown c.phase) : (t.stepped dispatcher c).Orderly rules := by
  obtain ⟨hdispatched, hserved, hanswered, hrefused, hbytes, hwaiting⟩ := hsame
  obtain ⟨hcalls, hsamples⟩ := hquiet dispatcher t.shutdown
  have hledger : (t.stepped dispatcher c).ledger = t.ledger := by
    simp only [ledger, written, stepped, hserved, hanswered, hrefused, hbytes, hcalls, hsamples, List.append_nil]
  refine ⟨⟨?_, hwaiting.trans ht.waiting⟩, ?_⟩
  · show (t.calls ++ _).map _ = c.dispatched
    rw [hcalls, List.append_nil, hdispatched]
    exact ht.calls
  · rw [hledger]
    exact hstands

theorem orderly_finish (ht : t.Sound) {reason : CloseReason} (hover : t.ledger.Over rules reason) :
    (t.stepped dispatcher (t.connection.finish reason)).Orderly rules :=
  orderly_keep ht (Connection.sameAccount_finish _ _) (Connection.quiet_of_works rfl) hover

theorem orderly_drain (ht : t.Sound) (htally : t.ledger.Tally rules 0 0 []) (hrefused : t.ledger.refused = [])
    (hlast : ∀ a ∈ (t.ledger.answers rules).getLast?, a.sequel = .goOn ∨ a.sequel = .drain) :
    (t.stepped dispatcher (t.connection.drain t.now)).Orderly rules :=
  orderly_keep ht (Connection.sameAccount_move _ _) (Connection.quiet_of_works rfl) ⟨htally, hrefused, hlast⟩

/-- A request is refused, or what is there when a shutdown has begun. -/
theorem orderly_refuse (ht : t.Sound) (htally : t.ledger.Tally rules 0 0 []) (hrefused : t.ledger.refused = [])
    {fault : Status} {message : String} {reason : CloseReason}
    (hrefuses : Refuses reason (Exchange.refusal fault message))
    (hlast : ∀ a ∈ (t.ledger.answers rules).getLast?, a.sequel = .goOn ∨ a.sequel = .drain ∧ reason = .drained) :
    (t.stepped dispatcher (t.connection.refuse fault message reason)).Orderly rules := by
  have hquiet : t.connection.Quiet (t.connection.refuse fault message reason) := Connection.quiet_of_works rfl
  obtain ⟨hcalls, hsamples⟩ := hquiet dispatcher t.shutdown
  have hledger : (t.stepped dispatcher (t.connection.refuse fault message reason)).ledger =
      { t.ledger with refused := t.ledger.refused ++ [Exchange.refusal fault message] } := by
    simp only [ledger, stepped, hcalls, hsamples, List.append_nil, Ledger.mk.injEq]
    exact ⟨trivial, trivial, rfl, Connection.answered_note_refused _ _, Connection.refused_note_refused _ _, rfl⟩
  refine ⟨⟨?_, ht.waiting⟩, ?_⟩
  · show (t.calls ++ _).map _ = _
    rw [hcalls, List.append_nil, ht.calls]
    exact (Connection.dispatched_note_refused _ _).symm
  · rw [hledger]
    refine ⟨htally.refuse hrefused _, ⟨_, ?_, hrefuses⟩, hlast⟩
    show t.ledger.refused ++ _ = _
    rw [hrefused]
    rfl

/-- A dispatch has come to an outcome: the request is answered, be it dispatched just now or before. -/
theorem orderly_answer (ht : t.Sound) (call : Call) (calls : List Call)
    (hcalls : t.calls ++ t.connection.calls dispatcher (c.answer t.shutdown call.outcome
      (.ofRequest rules.compress rules.encode call.request)) = calls)
    (hdispatched : calls.map (·.request) = c.dispatched)
    (hworks : (∃ r, t.connection.phase = .dispatching r) ∨ ∃ x d e k, t.connection.phase = .handling x d e k)
    (hserved : c.served = t.connection.served) (hanswered : c.answered = t.connection.answered)
    (hrefused : c.refused = t.connection.refused) (hout : c.outbound = t.connection.outbound)
    (htally : { t.ledger with calls }.Tally rules 1 0 []) (hnone : t.ledger.refused = [])
    (hgo : ∀ a ∈ ({ t.ledger with calls }.answers rules).getLast?, a.sequel = .goOn)
    (hlast : calls.getLast? = some call) (hruns : t.shutdown.isTerminated = false) :
    (t.stepped dispatcher
      (c.answer t.shutdown call.outcome (.ofRequest rules.compress rules.encode call.request))).Orderly rules := by
  obtain ⟨h1, h2, h3, h4, h5⟩ :=
    c.answer_adds t.shutdown call.outcome (.ofRequest rules.compress rules.encode call.request)
  have hsamples : t.connection.samples t.shutdown (c.answer t.shutdown call.outcome
      (.ofRequest rules.compress rules.encode call.request)) = [t.shutdown] := by
    rcases hworks with ⟨r, hp⟩ | ⟨x, d, e, k, hp⟩
    · simp only [Connection.samples, hp]
      rfl
    · simp only [Connection.samples, hp]
      rfl
  have hledger : (t.stepped dispatcher (c.answer t.shutdown call.outcome
      (.ofRequest rules.compress rules.encode call.request))).ledger = { t.ledger with
        calls
        sampled := t.ledger.sampled ++ [t.shutdown]
        answered := t.ledger.answered ++ [(rules.answerIn call t.shutdown).bytes] } := by
    simp only [ledger, stepped, written, hcalls, hsamples, h2, h3, h4, h5, hserved, hanswered, hrefused, hout]
    rfl
  refine ⟨⟨?_, (congrArg Pipe.waiting (h5.trans hout)).trans ht.waiting⟩, ?_⟩
  · exact (congrArg _ hcalls).trans (hdispatched.trans h1.symm)
  · rw [hledger]
    refine ⟨htally.answer hnone hgo hlast t.shutdown, hnone, ?_, fun _ => hruns⟩
    have hanswers : List.zipWith rules.answerIn calls (t.ledger.sampled ++ [t.shutdown]) = _ :=
      Ledger.answers_settle htally.sampled hlast t.shutdown
    show (List.zipWith rules.answerIn calls (t.ledger.sampled ++ [t.shutdown])).getLast?.map _ = _
    rw [hanswers, List.getLast?_concat]
    rfl

/-- What has been answered is followed by what the answer says. -/
theorem Orderly.follow (ho : t.Orderly rules) {sequel : Sequel} (hp : t.connection.phase = .answering [] sequel) :
    (t.stepped dispatcher (Connection.follow rules t.now sequel
      { t.connection with served := t.connection.served + 1 })).Orderly rules := by
  have hstands := ho.stands
  rw [hp] at hstands
  obtain ⟨htally, hrefused, hlast, -⟩ := hstands
  have hcount := htally.count hrefused
  have hnext : ∀ a ∈ (t.ledger.answers rules).getLast?, a.sequel = sequel := by
    intro a ha
    rw [Option.mem_def.1 ha] at hlast
    exact Option.some.inj hlast
  -- the lifetime once the answer is counted
  let t' : Lifetime := { t with connection := { t.connection with served := t.connection.served + 1 } }
  have ht : t'.Sound := ⟨ho.calls, ho.waiting⟩
  cases sequel with
  | goOn =>
    have hkeep : (t'.stepped dispatcher ((t'.connection.move .idle).await rules t.now)).Orderly rules :=
      orderly_keep ht (Connection.sameAccount_move _ _) (Connection.quiet_of_works rfl) ⟨hcount, hrefused, hnext⟩
    exact hkeep
  | drain =>
    have hdrain : (t'.stepped dispatcher (t'.connection.drain t'.now)).Orderly rules :=
      orderly_drain ht hcount hrefused fun a ha => .inr (hnext a ha)
    exact hdrain
  | close reason =>
    have hfinish : (t'.stepped dispatcher (t'.connection.finish reason)).Orderly rules := by
      refine orderly_finish ht (hcount.over (Nat.zero_le _) (.inl rfl) ?_ ?_ (.inl hrefused))
      · intro a ha _
        refine ⟨rfl, fun _ => ?_⟩
        rw [hnext a ha]
        rfl
      · intro hgo _
        obtain ⟨a, ha, hsequel⟩ := Option.map_eq_some_iff.1 hlast
        rw [hgo a ha] at hsequel
        cases hsequel
    exact hfinish

/-- A connection that is forced to end counts no answer any more. -/
theorem Orderly.force (ho : t.Orderly rules) (hworks : t.connection.phase.works = true)
    (hs : t.shutdown.isTerminated = true) : (t.stepped dispatcher (t.connection.finish .forced)).Orderly rules := by
  have hstands := ho.stands
  refine orderly_finish ho.toSound ?_
  cases hp : t.connection.phase with
  | dispatching request =>
    rw [hp] at hstands
    obtain ⟨htally, hrefused, hgo⟩ := hstands
    refine htally.over (Nat.zero_le _) (.inl rfl) ?_ (fun _ _ => .inr (.inr (.inl rfl))) (.inl hrefused)
    intro a ha hne
    exact absurd (hgo a ha) hne
  | handling exchange deadline ends completion =>
    rw [hp] at hstands
    obtain ⟨htally, hrefused, hgo, -⟩ := hstands
    refine htally.over (Nat.le_refl _) (.inl rfl) ?_ (fun _ _ => .inr (.inr (.inl rfl))) (.inl hrefused)
    intro a ha hne
    exact absurd (hgo a ha) hne
  | answering rest sequel =>
    rw [hp] at hstands
    obtain ⟨htally, hrefused, -, hcounted⟩ := hstands
    -- an answer that has been written would have been counted
    have hmore : rest ≠ [] := by
      intro hnil
      rw [hcounted hnil] at hs
      cases hs
    refine htally.over (Nat.zero_le _) (.inr ⟨hmore, hrefused⟩) ?_ ?_ (.inl hrefused)
    · intro a _ _
      refine ⟨rfl, ?_⟩
      rintro ⟨⟩
    · rintro _ ⟨⟩
  | examining deadline => rw [hp] at hworks; cases hworks
  | reading deadline => rw [hp] at hworks; cases hworks
  | refusing rest reason => rw [hp] at hworks; cases hworks
  | lingering deadline => rw [hp] at hworks; cases hworks
  | closed reason => rw [hp] at hworks; cases hworks

/-- A handler begins to run. Whether it ends before its deadline is whether it takes less than the limit. -/
theorem Orderly.begin (ho : t.Orderly rules) (call : Call) {reaction : Reaction}
    (hp : t.connection.phase = .dispatching call.request) (plan : call.dispatcher.plan call.request = .run reaction)
    (hlimit : call.dispatcher.limit = rules.dispatcher.limit) :
    (t.stepped call.dispatcher { t.connection.note (.dispatched call.request) with
      phase := .handling (.ofRequest rules.compress rules.encode call.request) (t.now + rules.dispatcher.limit.millis)
        (t.now + reaction.delay) reaction.completion }).Orderly rules := by
  have hstands := ho.stands
  rw [hp] at hstands
  obtain ⟨htally, hrefused, hgo⟩ := hstands
  have hledger : ∀ x d e k, (t.stepped call.dispatcher { t.connection.note (.dispatched call.request) with
      phase := .handling x d e k }).ledger = { t.ledger with calls := t.ledger.calls ++ [call] } := by
    intro x d e k
    simp only [ledger, stepped, Connection.samples, Connection.calls, hp, List.append_nil, Ledger.mk.injEq]
    exact ⟨trivial, trivial, rfl, Connection.answered_note_dispatched _ _, Connection.refused_note_dispatched _ _, rfl⟩
  have houtcome : rules.dispatcher.outcomeBy (t.now + rules.dispatcher.limit.millis) (t.now + reaction.delay)
      reaction.completion = call.outcome := by
    simp only [Call.outcome, Dispatcher.outcomeBy, Dispatcher.dispatch, plan, Dispatcher.inTime, hlimit,
      Nat.add_lt_add_iff_left, decide_eq_true_eq]
  refine ⟨⟨?_, ho.waiting⟩, ?_⟩
  · show (t.calls ++ _).map _ = _
    simp only [Connection.calls, hp, List.map_append, ho.calls]
    exact (Connection.dispatched_note_dispatched _ _).symm
  · rw [hledger]
    refine ⟨htally.call call, hrefused, ?_, call, List.getLast?_concat, rfl, houtcome⟩
    rw [Ledger.answers_call rules htally.sampled]
    exact hgo

/-- Bytes are written. -/
theorem orderly_write (ht : t.Sound) {phase : Phase} {rest : Bytes}
    (hquiet : t.connection.Quiet { t.connection with phase, outbound := (t.connection.outbound.write rest).2 })
    (hstands : { t.ledger with
      written := t.ledger.written ++ rest.take t.connection.outbound.room }.Stands rules t.shutdown phase) :
    (t.stepped dispatcher { t.connection with phase, outbound := (t.connection.outbound.write rest).2 }).Orderly
      rules := by
  obtain ⟨hcalls, hsamples⟩ := hquiet dispatcher t.shutdown
  refine ⟨⟨?_, ht.waiting⟩, ?_⟩
  · show (t.calls ++ _).map _ = _
    rw [hcalls, List.append_nil]
    exact ht.calls
  · have hledger : (t.stepped dispatcher
        { t.connection with phase, outbound := (t.connection.outbound.write rest).2 }).ledger =
          { t.ledger with written := t.ledger.written ++ rest.take t.connection.outbound.room } := by
      simp only [ledger, stepped, written, hcalls, hsamples, List.append_nil, Ledger.mk.injEq]
      exact ⟨trivial, trivial, trivial, rfl, rfl, by simp [Pipe.write]⟩
    rw [hledger]
    exact hstands

/-- A connection that has read what its peer had sent ends, or refuses it. -/
theorem Orderly.leave (ho : t.Orderly rules) (dispatcher : Dispatcher) {deadline : Nat}
    (hp : t.connection.phase = .lingering deadline) : (t.stepped dispatcher t.connection.leave).Orderly rules := by
  have hstands := ho.stands
  rw [hp] at hstands
  obtain ⟨htally, hrefused, hlast⟩ := hstands
  unfold Connection.leave
  split
  · refine orderly_finish ho.toSound (htally.over (Nat.zero_le _) (.inl rfl) ?_ ?_ (.inl hrefused))
    · intro a ha hne
      refine ⟨rfl, fun _ => ?_⟩
      rw [(hlast a ha).resolve_left hne]
      rfl
    · intro _ _
      exact .inr (.inr (.inr ⟨_, .drained⟩))
  · exact orderly_refuse ho.toSound htally hrefused .drained fun a ha => (hlast a ha).imp_right fun h => ⟨h, rfl⟩

/-- A step keeps the ledger in order. -/
theorem Orderly.step (ho : t.Orderly rules) {table : Table}
    (hstep : t.connection.step (rules.withTable table) t.now t.shutdown = some c) :
    (t.stepped (rules.withTable table).dispatcher c).Orderly rules := by
  have hstands := ho.stands
  have ht := ho.toSound
  cases Connection.step_advance hstep with
  | drain hp hs =>
    have hopen : t.ledger.Tally rules 0 0 [] ∧ t.ledger.refused = [] ∧
        ∀ a ∈ (t.ledger.answers rules).getLast?, a.sequel = .goOn := by
      rcases hp with hp | hp
      · rw [hp] at hstands
        exact hstands
      · rw [hp] at hstands
        exact hstands
    obtain ⟨htally, hrefused, hgo⟩ := hopen
    exact orderly_drain ht htally hrefused fun a ha => .inl (hgo a ha)
  | wait hp hs found =>
    rw [hp] at hstands
    exact orderly_keep ht (.refl _) (Connection.quiet_of_works rfl) hstands
  | take hp hs found =>
    rename_i request rest
    rw [hp] at hstands
    refine orderly_keep ht (Connection.sameAccount_move _ _) ?_ ?_
    · intro dispatcher status
      simp only [Connection.calls, Connection.samples, hp, and_self]
    · rw [Connection.phase_move]
      exact hstands
  | refuse hp hs found =>
    rw [hp] at hstands
    obtain ⟨htally, hrefused, hgo⟩ := hstands
    exact orderly_refuse ht htally hrefused (.of_ofBuffer found) fun a ha => .inl (hgo a ha)
  | read hp hs found =>
    rw [hp] at hstands
    exact orderly_keep ht (.refl _) (Connection.quiet_of_works rfl) hstands
  | giveUp hp hs found why =>
    rw [hp] at hstands
    obtain ⟨htally, hrefused, hgo⟩ := hstands
    refine orderly_finish ht (htally.over (Nat.zero_le _) (.inl rfl) ?_ ?_ (.inl hrefused))
    · intro a ha hne
      exact absurd (hgo a ha) hne
    · intro _ _
      rcases why with rfl | rfl
      · exact .inl rfl
      · exact .inr (.inl rfl)
  | force hp hs => exact ho.force hp hs
  | answer hp hs plan =>
    rename_i request outcome
    rw [hp] at hstands
    obtain ⟨htally, hrefused, hgo⟩ := hstands
    let call : Call := ⟨request, (rules.withTable table).dispatcher⟩
    have houtcome : call.outcome = outcome := by
      simp only [call, Call.outcome, Dispatcher.dispatch, plan]
    have hdispatched : (t.calls ++ [call]).map (·.request) = (t.connection.note (.dispatched request)).dispatched := by
      rw [List.map_append, ht.calls]
      exact (Connection.dispatched_note_dispatched _ _).symm
    rw [← houtcome]
    refine orderly_answer ht call (t.calls ++ [call]) ?_ hdispatched (.inl ⟨_, hp⟩) rfl
      (Connection.answered_note_dispatched _ _) (Connection.refused_note_dispatched _ _) rfl
      (htally.call call) hrefused ?_ List.getLast?_concat hs
    · simp only [Connection.calls, hp]
      rfl
    · rw [← Ledger.answers_call rules htally.sampled call] at hgo
      exact hgo
  | begin hp hs plan =>
    rename_i request reaction
    exact ho.begin ⟨request, (rules.withTable table).dispatcher⟩ hp plan rfl
  | conclude hp hs =>
    rw [hp] at hstands
    obtain ⟨htally, hrefused, hgo, call, hlast, rfl, houtcome⟩ := hstands
    have hsame : (rules.withTable table).dispatcher.outcomeBy = rules.dispatcher.outcomeBy := rfl
    rw [hsame, houtcome]
    refine orderly_answer ht call t.calls ?_ ht.calls (.inr ⟨_, _, _, _, hp⟩) rfl rfl rfl rfl htally hrefused hgo
      hlast hs
    simp only [Connection.calls, hp, List.append_nil]
  | follow hp hs => exact ho.follow hp
  | breakOff hp more closed =>
    rw [hp] at hstands
    obtain ⟨htally, hrefused, -⟩ := hstands
    refine orderly_finish ht (htally.over (Nat.zero_le _) (.inr ⟨more, hrefused⟩) ?_ ?_ (.inl hrefused))
    · intro a _ _
      refine ⟨rfl, ?_⟩
      rintro ⟨⟩
    · rintro _ ⟨⟩
  | write hp more hs room =>
    rename_i rest sequel
    rw [hp] at hstands
    obtain ⟨htally, hrefused, hlast, -⟩ := hstands
    refine orderly_write ht ?_ ⟨htally.write (List.take_append_drop _ rest).symm, hrefused, hlast, fun _ => hs⟩
    intro dispatcher status
    simp only [Connection.calls, Connection.samples, hp, and_self]
  | dismiss hp done =>
    rw [hp] at hstands
    obtain ⟨htally, ⟨bytes, hbytes, hrefuses⟩, hlast⟩ := hstands
    refine orderly_finish ht (htally.over (Nat.zero_le _) (.inl rfl) ?_ ?_ (.inr ⟨bytes, hbytes, hrefuses, rfl⟩))
    · intro a ha hne
      obtain ⟨hdrain, rfl⟩ := (hlast a ha).resolve_left hne
      refine ⟨rfl, fun _ => ?_⟩
      rw [hdrain]
      rfl
    · intro _ _
      exact .inr (.inr (.inr ⟨bytes, hrefuses⟩))
  | writeRefusal hp more opened room =>
    rename_i rest reason
    rw [hp] at hstands
    obtain ⟨htally, hrefused, hlast⟩ := hstands
    exact orderly_write ht (Connection.quiet_of_works rfl)
      ⟨htally.write (List.take_append_drop _ rest).symm, hrefused, hlast⟩
  | linger hp => exact orderly_keep ht (.refl _) (Connection.quiet_of_works (by rw [Connection.read, hp]; rfl)) hstands
  | leave hp found =>
    have hleave := ho.leave (rules.withTable table).dispatcher hp
    rw [Connection.leave, if_pos (List.isEmpty_iff.2 found)] at hleave
    exact hleave
  | turnAway hp found =>
    have hleave := ho.leave (rules.withTable table).dispatcher hp
    rw [Connection.leave, if_neg (mt List.isEmpty_iff.1 found)] at hleave
    exact hleave

/-- What the peer receives has been written before. -/
theorem Sound.ledger_receive (ht : t.Sound) (most : Nat) : { t with
      connection := { t.connection with outbound := (t.connection.outbound.read most).2 }
      received := t.received ++ (t.connection.outbound.read most).1 }.ledger = t.ledger := by
  have hread := t.connection.outbound.read_contents most
  simp only [Pipe.contents, Pipe.waiting_read ht.waiting most, ht.waiting, List.append_nil] at hread
  simp only [ledger, written, List.append_assoc, hread]
  rfl

/-- What happens around a connection leaves its ledger as it is. -/
theorem Orderly.move (ho : t.Orderly rules) (h : Move rules t u) : u.Orderly rules := by
  have ht := ho.toSound
  cases h with
  | step table h => exact ho.step h
  | send piece h => exact ⟨⟨ht.calls, ht.waiting⟩, ho.stands⟩
  | endSending => exact ⟨⟨ht.calls, ht.waiting⟩, ho.stands⟩
  | hangUp => exact ⟨⟨ht.calls, ht.waiting⟩, ho.stands⟩
  | receive most =>
    refine ⟨⟨ht.calls, Pipe.waiting_read ht.waiting most⟩, ?_⟩
    rw [ht.ledger_receive]
    exact ho.stands
  | pass ms => exact ⟨⟨ht.calls, ht.waiting⟩, ho.stands⟩
  | shutDown next begun unended counted =>
    refine ⟨⟨ht.calls, ht.waiting⟩, ?_⟩
    have hstands := ho.stands
    show t.ledger.Stands rules next t.connection.phase
    cases hp : t.connection.phase with
    | answering rest sequel =>
      rw [hp] at hstands
      obtain ⟨htally, hrefused, hlast, -⟩ := hstands
      refine ⟨htally, hrefused, hlast, ?_⟩
      rintro rfl
      exact absurd hp (counted sequel)
    | _ =>
      rw [hp] at hstands
      exact hstands
  | reserve capacity gap => exact ⟨⟨ht.calls, ht.waiting⟩, ho.stands⟩

theorem Run.orderly (h : Run rules t u) (ho : t.Orderly rules) : u.Orderly rules := by
  induction h with
  | refl => exact ho
  | move _ next ih => exact ih.move next

end Lifetime

/-! ## What a lifetime shows -/

/-- Whether the connection is kept after the answer to a request: the request and the response allow it, no shutdown had
begun when the outcome was found, and the outcome is not one that gives the connection up. -/
def Call.Keeps (call : Call) (status : ShutdownState) : Prop :=
  call.request.isKeepAlive = true ∧ (Exchange.settle call.outcome).1.keepAlive = true ∧ status.isRunning = true ∧
    ∀ e, call.outcome = .error e → e.closesConnection = false

theorem Call.keeps_iff (compress : Bool) (encode : Bytes → Bytes) {call : Call} {status : ShutdownState} :
    (Exchange.ofRequest compress encode call.request).keeps status.isRunning call.outcome = true ↔
      call.Keeps status := by
  have hgivesUp : Exchange.givesUp call.outcome = false ↔
      ∀ e, call.outcome = .error e → e.closesConnection = false := by
    cases call.outcome with
    | ok response => exact iff_of_true rfl nofun
    | error e =>
      refine ⟨?_, fun h => h e rfl⟩
      rintro h _ ⟨⟩
      exact h
  simp only [Exchange.keeps, Call.Keeps, Bool.and_eq_true, Bool.not_eq_true', hgivesUp, and_assoc]
  rfl

/-- An answer goes on exactly if the connection is kept. -/
theorem ConnectionRules.answerIn_goOn_iff (rules : ConnectionRules) {call : Call} {status : ShutdownState} :
    (rules.answerIn call status).sequel = .goOn ↔ call.Keeps status :=
  Exchange.answer_goOn_iff.trans (Call.keeps_iff rules.compress rules.encode)

namespace Lifetime

/-- The answers to the requests that have been dispatched, as far as there are outcomes. -/
def answers (rules : ConnectionRules) (t : Lifetime) : List Answer := List.zipWith rules.answerIn t.calls t.sampled

/-- The answer to a request has been written, and those before it. -/
def Wrote (rules : ConnectionRules) (i : Nat) (t : Lifetime) : Prop :=
  bytesOf ((t.answers rules).take (i + 1)) <+: t.written

/-- The connection has ended for a reason, or does so with the next step. -/
def Ends (rules : ConnectionRules) (reason : CloseReason) (t : Lifetime) : Prop :=
  t.connection.phase = .closed reason ∨
    ∃ c, t.connection.step rules t.now t.shutdown = some c ∧ c.phase = .closed reason

/-- How the i-th request has been answered, and what has followed its answer. -/
structure Answered (rules : ConnectionRules) (t : Lifetime) (i : Nat) (call : Call) (status : ShutdownState) :
    Prop where
  request : t.connection.dispatched[i]? = some call.request
  answer : (t.answers rules)[i]? = some (rules.answerIn call status)
  /-- The answer has one connection option, and it tells whether the connection is kept. -/
  option : ∃ (code : Status) (lines : List (String × String)) (body : Bytes),
    (rules.answerIn call status).bytes =
      Head.statusLine code ++ (lines.flatMap Head.lineOf ++ Bytes.crlf) ++ body ∧
    (Headers.getAll "connection" ⟨lines⟩ = ["keep-alive"] ∧ call.Keeps status ∨
      Headers.getAll "connection" ⟨lines⟩ = ["close"] ∧ ¬call.Keeps status)
  /-- If the connection is not kept no request is dispatched any more, and nothing is written after the answer but
  what a shutdown makes of the bytes that have come. -/
  closes : ¬call.Keeps status → t.connection.dispatched.length = i + 1 ∧
    (t.connection.refused = [] ∨ t.connection.refused = [drainRefusal])
  /-- If it is kept the next request is awaited once the answer has been written. -/
  waits : call.Keeps status → t.Wrote rules i → t.connection.dispatched.length = i + 1 → t.connection.phase.Awaits
  /-- The first step after an answer that keeps the connection begins to wait. -/
  goesOn : call.Keeps status → ∀ sequel, t.connection.phase = .answering [] sequel →
    t.connection.dispatched.length = i + 1 → ∃ c, t.connection.step rules t.now t.shutdown = some c ∧
      c.phase = .examining (t.now + rules.idleTimeout) ∧ c.state = .idle
  timedOut : ∀ limit, call.outcome = .error (.handlerTimeout limit) → t.Wrote rules i → t.Ends rules .handlerTimeout
  panicked : ∀ text, call.outcome = .error (.panicked text) → t.Wrote rules i → t.Ends rules .handlerPanicked

variable {rules : ConnectionRules} {t : Lifetime} {i : Nat} {call : Call} {status : ShutdownState}

/-- The answer to the i-th request is the i-th answer. -/
theorem getElem?_answers (hcall : t.calls[i]? = some call) (hstatus : t.sampled[i]? = some status) :
    (t.answers rules)[i]? = some (rules.answerIn call status) := by
  rw [answers, List.getElem?_zipWith, hcall, hstatus]

theorem Orderly.answered_eq (ho : t.Orderly rules) : t.connection.answered = (t.answers rules).map (·.bytes) :=
  ho.stands.account.answered

theorem Orderly.getElem?_answered (ho : t.Orderly rules) (hcall : t.calls[i]? = some call)
    (hstatus : t.sampled[i]? = some status) :
    t.connection.answered[i]? = some (rules.answerIn call status).bytes := by
  rw [ho.answered_eq, List.getElem?_map, getElem?_answers hcall hstatus, Option.map_some]

/-- After an answer that has been written the connection does in the next step what the answer says. -/
theorem step_answered {sequel : Sequel} (hp : t.connection.phase = .answering [] sequel)
    (hs : t.shutdown.isTerminated = false) :
    t.connection.step rules t.now t.shutdown =
      some (Connection.follow rules t.now sequel { t.connection with served := t.connection.served + 1 }) := by
  rw [Connection.step, hp]
  simp only [Connection.writeAnswer, hs, List.isEmpty_nil, Bool.false_eq_true, if_false, if_true]

/-- The answer to the last request is the last one. -/
theorem Orderly.mem_getLast? (ho : t.Orderly rules) (ha : (t.answers rules)[i]? = some (rules.answerIn call status))
    (hlength : t.connection.dispatched.length = i + 1) :
    rules.answerIn call status ∈ (t.ledger.answers rules).getLast? ∧ t.calls.length = t.sampled.length ∧
      (t.answers rules).take (i + 1) = t.answers rules := by
  have haccount := ho.stands.account
  have hsampled : t.sampled.length ≤ t.calls.length := haccount.sampled_le
  have hanswers : (t.answers rules).length = t.sampled.length := Ledger.length_answers haccount.sampled_le
  have hcalls := congrArg List.length ho.calls
  rw [List.length_map, hlength] at hcalls
  obtain ⟨hi, -⟩ := List.getElem?_eq_some_iff.1 ha
  have hlast : (t.answers rules).length - 1 = i := by omega
  refine ⟨?_, by omega, List.take_of_length_le (by omega)⟩
  show (t.answers rules).getLast? = _
  rw [List.getLast?_eq_getElem?, hlast, ha]

/-- An answer that does not keep the connection is the last one. -/
theorem Orderly.closes (ho : t.Orderly rules) (ha : (t.answers rules)[i]? = some (rules.answerIn call status))
    (hgo : ¬call.Keeps status) : t.connection.dispatched.length = i + 1 ∧
      (t.connection.refused = [] ∨ t.connection.refused = [drainRefusal]) := by
  rw [← rules.answerIn_goOn_iff] at hgo
  obtain ⟨hi, hget⟩ := List.getElem?_eq_some_iff.1 ha
  have hlast : (t.answers rules).length - 1 = i := by
    rcases Nat.lt_or_ge (i + 1) (t.answers rules).length with hearlier | hlast
    · have hi' : i < (t.answers rules).dropLast.length := by
        rw [List.length_dropLast]
        omega
      have hmem : rules.answerIn call status ∈ (t.answers rules).dropLast := by
        refine List.mem_iff_getElem.2 ⟨i, hi', ?_⟩
        rw [List.getElem_dropLast, hget]
      exact absurd (ho.stands.account.earlier _ hmem) hgo
    · omega
  have hmem : rules.answerIn call status ∈ (t.ledger.answers rules).getLast? := by
    show (t.answers rules).getLast? = _
    rw [List.getLast?_eq_getElem?, hlast, ha]
  obtain ⟨hlength, hrefused⟩ := ho.stands.nothing_after hmem hgo
  have hlength : t.sampled.length = t.calls.length := hlength
  have hanswers : (t.answers rules).length = t.sampled.length := Ledger.length_answers ho.stands.account.sampled_le
  have hcalls := congrArg List.length ho.calls
  rw [List.length_map] at hcalls
  exact ⟨by omega, hrefused⟩

/-- A handler that is given up is the reason to end once the answer has been written. -/
theorem Orderly.ends (ho : t.Orderly rules) (ha : (t.answers rules)[i]? = some (rules.answerIn call status))
    {reason : CloseReason} (hclose : (rules.answerIn call status).sequel = .close reason) (hw : t.Wrote rules i) :
    t.Ends rules reason := by
  have hgo : ¬call.Keeps status := by
    rw [← rules.answerIn_goOn_iff, hclose]
    exact nofun
  obtain ⟨hmem, -, htake⟩ := ho.mem_getLast? ha (ho.closes ha hgo).1
  rw [Wrote, htake] at hw
  rcases ho.stands.ends hmem hclose hw with hp | ⟨hp, hs⟩
  · exact .inl hp
  · exact .inr ⟨_, step_answered hp hs, rfl⟩

/-- The i-th request is answered by its outcome, and what follows is what the answer says. -/
theorem Orderly.answered (ho : t.Orderly rules) (hcall : t.calls[i]? = some call)
    (hstatus : t.sampled[i]? = some status) : t.Answered rules i call status := by
  have ha : (t.answers rules)[i]? = some (rules.answerIn call status) := getElem?_answers hcall hstatus
  constructor
  case request => rw [← ho.calls, List.getElem?_map, hcall, Option.map_some]
  case answer => exact ha
  case option =>
    obtain ⟨code, lines, body, hbytes, hoption⟩ := Exchange.answer_bytes status.isRunning call.outcome
      (.ofRequest rules.compress rules.encode call.request)
    refine ⟨code, lines, body, hbytes, ?_⟩
    rw [← Call.keeps_iff rules.compress rules.encode]
    split at hoption
    · next hkeeps => exact .inl ⟨hoption, hkeeps⟩
    · next hkeeps => exact .inr ⟨hoption, hkeeps⟩
  case closes => exact ho.closes ha
  case waits =>
    intro hkeeps hw hlength
    obtain ⟨hmem, hcalls, htake⟩ := ho.mem_getLast? ha hlength
    rw [Wrote, htake] at hw
    refine ho.stands.awaits ?_ hw hcalls
    intro a ha'
    rw [Option.mem_unique ha' hmem]
    exact rules.answerIn_goOn_iff.2 hkeeps
  case goesOn =>
    intro hkeeps sequel hp hlength
    obtain ⟨hmem, -, -⟩ := ho.mem_getLast? ha hlength
    have hstands := ho.stands
    rw [hp] at hstands
    obtain ⟨-, -, hlast, hruns⟩ := hstands
    rw [Option.mem_def.1 hmem, Option.map_some, rules.answerIn_goOn_iff.2 hkeeps] at hlast
    cases hlast
    refine ⟨_, step_answered hp (hruns rfl), rfl, Connection.state_move _ _⟩
  case timedOut =>
    intro limit houtcome hw
    refine ho.ends ha ?_ hw
    rw [ConnectionRules.answerIn, houtcome]
    rfl
  case panicked =>
    intro text houtcome hw
    refine ho.ends ha ?_ hw
    rw [ConnectionRules.answerIn, houtcome]
    rfl

/-- Whatever a peer sends, however handlers end and whenever a shutdown begins: the bytes that are written are the
answers to the dispatched requests, in order, and after them at most one refusal. Each answer has one connection option,
which is to keep the connection exactly if the request and the response allow it, no shutdown had begun when the handler
had ended, and the handler was not given up. After an answer that closes the connection no request is dispatched and
nothing is written but what a shutdown makes of the bytes that have come; after one that keeps it the next request is
awaited. A handler that is given up is the reason to close once the answer has been written. -/
theorem answered_of_run {id : ConnectionId} {capacity now : Nat} (h : Run rules (start rules id capacity now) t) :
    t.calls.map (·.request) = t.connection.dispatched ∧
    t.sampled.length ≤ t.calls.length ∧ t.calls.length ≤ t.sampled.length + 1 ∧
    t.connection.answered = (t.answers rules).map (·.bytes) ∧
    t.written <+: bytesOf (t.answers rules) ++ t.connection.refused.flatten ∧
    t.connection.served ≤ (t.answers rules).length ∧
    bytesOf ((t.answers rules).take t.connection.served) <+: t.written ∧
    ∀ i call status, t.calls[i]? = some call → t.sampled[i]? = some status → t.Answered rules i call status := by
  have ho := h.orderly (orderly_start id capacity now)
  have haccount := ho.stands.account
  refine ⟨ho.calls, haccount.sampled_le, haccount.calls_le, haccount.answered, haccount.begun, haccount.served_le,
    haccount.counted, ?_⟩
  intro i call status hcall hstatus
  exact ho.answered hcall hstatus

/-- Two requests for which there is no route come in one piece, and the second asks to close the connection. They are
answered in their order, the first answer keeps the connection, and the second closes it. -/
theorem answered_of_two_requests :
    let rules : ConnectionRules := ⟨⟨.empty, ⟨0⟩⟩, 10, 64, false, Gzip.gzip⟩
    let first : Call := ⟨.new .get "/a", rules.dispatcher⟩
    let second : Call := ⟨{ Request.new .get "/b" with headers := ⟨[("Connection", "close")]⟩ }, rules.dispatcher⟩
    ∃ t, Run rules (start rules ⟨1⟩ 1024 0) t ∧
      t.sent = Bytes.ofText "GET /a HTTP/1.1\r\n\r\nGET /b HTTP/1.1\r\nConnection: close\r\n\r\n" ∧
      t.connection.dispatched = [first.request, second.request] ∧
      t.connection.answered = [(Answer.noRoute true).bytes, (Answer.noRoute false).bytes] ∧
      t.written = (Answer.noRoute true).bytes ++ (Answer.noRoute false).bytes ∧
      first.Keeps .running ∧ t.Answered rules 0 first .running ∧
      ¬ second.Keeps .running ∧ t.Answered rules 1 second .running := by
  intro rules first second
  let b := Bytes.ofText "GET /a HTTP/1.1\r\n\r\nGET /b HTTP/1.1\r\nConnection: close\r\n\r\n"
  let rest := Bytes.ofText "GET /b HTTP/1.1\r\nConnection: close\r\n\r\n"
  have hfirst : Request.front? b = some (first.request, rest) := by decide
  have hsecond : Request.front? rest = some (second.request, []) := by decide
  have hkeep : rules.answerIn first .running = .noRoute true := ConnectionRules.answer_of_empty _ _ _ _ (by decide)
  have hclose : rules.answerIn second .running = .noRoute false := ConnectionRules.answer_of_empty _ _ _ _ (by decide)
  -- both requests are there, the first is answered, the second is looked at, and it is answered
  obtain ⟨t₀, hrun₀, ht₀⟩ := run_arrive rules ⟨1⟩ 1024 0 (show b ≠ [] by decide) (by decide)
  obtain ⟨deadline, hp₀⟩ := ht₀.phase
  obtain ⟨t₁, hrun₁, hsent₁, hp₁, ht₁⟩ := ht₀.between.run_turn hp₀ (Admission.serve_of_front? hfirst (by decide))
    (Dispatcher.plan_of_empty _ _) hkeep (by decide +kernel) (by decide +kernel)
  obtain ⟨t₂, hrun₂, hsent₂, hp₂, ht₂⟩ := ht₁.run_next rules hp₁
  obtain ⟨t₃, hrun₃, hsent₃, -, ht₃⟩ := ht₂.run_turn hp₂ (Admission.serve_of_front? hsecond (by decide))
    (Dispatcher.plan_of_empty _ _) hclose (by decide +kernel) (by decide +kernel)
  obtain ⟨hdispatched, -, -, hanswers, -, -, -, hanswered⟩ :=
    answered_of_run (((hrun₀.trans hrun₁).trans hrun₂).trans hrun₃)
  have hsent : t₃.sent = b := hsent₃.trans (hsent₂.trans (hsent₁.trans ht₀.sent))
  have hcalls : t₃.calls = [first, second] := ht₃.calls
  have hsampled : t₃.sampled = [.running, .running] := ht₃.sampled
  refine ⟨t₃, ((hrun₀.trans hrun₁).trans hrun₂).trans hrun₃, hsent, ?_, ?_, ?_, ?_,
    hanswered 0 first .running ?_ ?_, ?_, hanswered 1 second .running ?_ ?_⟩
  · rw [← hdispatched, hcalls]
    rfl
  · rw [hanswers, answers, hcalls, hsampled]
    show [(rules.answerIn first .running).bytes, (rules.answerIn second .running).bytes] = _
    rw [hkeep, hclose]
  · rw [written, ht₃.received, ht₃.outbound, List.nil_append, List.nil_append]
  · rw [← rules.answerIn_goOn_iff, hkeep]
    rfl
  · rw [hcalls]
    rfl
  · rw [hsampled]
    rfl
  · rw [← rules.answerIn_goOn_iff, hclose]
    decide
  · rw [hcalls]
    rfl
  · rw [hsampled]
    rfl

end Lifetime

end Hypertext
