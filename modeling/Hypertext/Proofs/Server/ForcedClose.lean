/-
What the end of a shutdown does to the connections of a server. Whoever works on a request then is forced to end and
writes no byte any more; nobody else is forced. The report counts the guards, so it tells at least as many forced
connections as there are, and more when some wait for a request, refuse one, or take leave.
-/
import Hypertext.Proofs.Server.Operation

namespace Hypertext

namespace Operation

variable {rules : ConnectionRules} {o p q : Operation}

/-- When the shutdown comes to another state nothing happens to the connections. -/
theorem Move.members_or_state (h : Move rules o p) :
    p.members = o.members ∨ p.traffic.coordinator.state = o.traffic.coordinator.state := by
  cases h with
  | coordinate => exact .inl rfl
  | accept i capacity h => exact .inr (Traffic.step_shutdown h nofun).1
  | live => exact .inr rfl
  | leave i member ended held h => exact .inr (Traffic.step_shutdown h nofun).1

theorem countP_isDoomed (members : List Member) :
    members.countP Member.isDoomed = members.countP Member.isForced + members.countP Member.works := by
  induction members with
  | nil => rfl
  | cons m rest ih =>
    have hforced : m.works = true → m.isForced = false := Phase.isForced_of_works
    have hdoomed : m.isDoomed = (m.works || m.isForced) := rfl
    rw [List.countP_cons, List.countP_cons, List.countP_cons, ih, hdoomed]
    cases hw : m.works with
    | false =>
      cases m.isForced <;> simp +arith
    | true =>
      rw [hforced hw]
      simp +arith

/-- Whoever works on a request holds a guard. -/
theorem Proper.works_le (ho : o.Proper rules) :
    o.members.countP Member.works ≤ o.members.countP Member.registered := by
  refine List.countP_mono_left fun m hm hworks => ?_
  cases hr : m.registered with
  | true => rfl
  | false =>
    obtain ⟨reason, hp⟩ := ho.ended m hm hr
    rw [Member.works, hp] at hworks
    cases hworks

/-! ## One connection -/

/-- One connection has been accepted. -/
def accepted : Traffic := ⟨0, ⟨.running, 1, 2, 0⟩, [.done (some ⟨1⟩)], 1, []⟩

/-- A shutdown without grace is about to end. -/
def ending : Traffic := ⟨0, ⟨.draining 0, 1, 2, 1⟩, [.done (some ⟨1⟩)], 1, [.ending]⟩

/-- It has ended. -/
def ended : Traffic := ⟨0, ⟨.terminated, 1, 2, 1⟩, [.done (some ⟨1⟩)], 1, [.reporting]⟩

/-- So long ago it has ended, and the report is there. -/
def reported (now : Nat) : Traffic := ⟨now, ⟨.terminated, 1, 2, 1⟩, [.done (some ⟨1⟩)], 1, [.done ⟨1⟩]⟩

theorem run_accepted (rules : ConnectionRules) (capacity : Nat) :
    Run rules start ⟨accepted, [⟨.start rules ⟨1⟩ capacity 0, true⟩]⟩ :=
  run_accept rules start capacity rfl

/-- The connection goes on, or something happens to it. -/
theorem Run.live_one {t : Traffic} {life next : Lifetime} (h : Run rules o ⟨t, [⟨life, true⟩]⟩)
    (hmove : Lifetime.Move rules (Member.seen t ⟨life, true⟩) next) (now : next.now = t.now)
    (shutdown : next.shutdown = t.coordinator.state) : Run rules o ⟨t, [⟨next, true⟩]⟩ := by
  have hlive : Move rules ⟨t, [⟨life, true⟩]⟩ ⟨t, [⟨life, true⟩].set 0 ⟨next, true⟩⟩ :=
    .live (m := ⟨life, true⟩) 0 rfl hmove now shutdown
  exact h.move hlive

/-- The shutdown begins while no answer is written, ends, and is reported. -/
theorem run_ended (rules : ConnectionRules) (m : Member)
    (hm : ∀ sequel, m.life.connection.phase ≠ .answering [] sequel) :
    Run rules ⟨accepted, [m]⟩ ⟨ending, [m]⟩ ∧ Move rules ⟨ending, [m]⟩ ⟨ended, [m]⟩ ∧
      Run rules ⟨ended, [m]⟩ ⟨reported 0, [m]⟩ := by
  have hall : ∀ m' ∈ [m], ∀ sequel, m'.life.connection.phase ≠ .answering [] sequel := by
    intro m' hm'
    rw [List.mem_singleton.1 hm']
    exact hm
  have hbegun : Run rules ⟨accepted, [m]⟩ _ := Run.refl.move (.coordinate (.shutDown 0) rfl rfl (.inl rfl))
  have hdrains := hbegun.move (.coordinate (.call 0) rfl rfl (.inr hall))
  have hwaited := hdrains.move (.coordinate (.call 0) rfl rfl (.inl rfl))
  have hread := hwaited.move (.coordinate (.call 0) rfl rfl (.inl rfl))
  have hreported : Move rules ⟨ended, [m]⟩ ⟨reported 0, [m]⟩ := .coordinate (.call 0) rfl rfl (.inl rfl)
  exact ⟨hread.move (.coordinate (.call 0) rfl rfl (.inl rfl)), .coordinate (.call 0) rfl rfl (.inr hall),
    Run.refl.move hreported⟩

/-! ## Main result -/

/-- A server has run and its shutdown ends, and it goes on from there. Whoever worked on a request then has written no
byte since and is forced to end, now or with the next step; nobody else is forced; and the report tells at least as
many forced connections as held their guards then, so at least as many as are forced. -/
theorem forced_when_ended (ho : Run rules start o) (hruns : o.traffic.coordinator.state.isTerminated = false)
    (hends : Move rules o p) (hended : p.traffic.coordinator.state.isTerminated = true) (hq : Run rules p q) :
    (∀ (i : Nat) (m : Member), p.members[i]? = some m → ∃ m', q.members[i]? = some m' ∧
      (m.works = true → m'.life.written = m.life.written ∧ (m'.seen q.traffic).Ends rules .forced) ∧
      (m.works = false → m'.isForced = false)) ∧
    q.members.countP Member.isForced + q.members.countP Member.works = p.members.countP Member.works ∧
    p.members.countP Member.works ≤ p.members.countP Member.registered ∧
    ∀ r, .done r ∈ q.traffic.calls → p.members.countP Member.registered ≤ r.forced := by
  have hoproper : o.Proper rules := proper_start.run ho
  have hproper : p.Proper rules := hoproper.move hends
  have hnone : ∀ m ∈ p.members, m.isForced = false := by
    intro m hm
    refine Bool.eq_false_iff.2 fun hforced => ?_
    rcases hends.members_or_state with hsame | hsame
    · rw [hsame] at hm
      rw [(hoproper.lives m hm).ended_of_forced hforced] at hruns
      cases hruns
    · rw [hsame, hruns] at hended
      cases hended
  obtain ⟨events, hevents⟩ := hq.traffic
  obtain ⟨hqended, hrecorded⟩ := hproper.traffic.ended_replay hended hevents
  refine ⟨?_, ?_, hproper.works_le, ?_⟩
  · intro i m hm
    obtain ⟨m', hm', hrun⟩ := hq.life hproper hm
    obtain ⟨hsame, hdoomed⟩ := hrun.doomed (hproper.lives m (List.mem_of_getElem? hm)).orderly hended
    refine ⟨m', hm', fun hworks => ?_, fun hidle => ?_⟩
    · have hm : m.isDoomed = true := by
        show (m.works || _) = true
        rw [hworks]
        rfl
      obtain ⟨hwritten, hp⟩ := hdoomed hm
      refine ⟨hwritten, ?_⟩
      rcases hp with hp | hp
      · refine .inr ⟨_, Connection.step_of_works hqended ?_, rfl⟩
        rw [hp]
        exact hworks
      · exact .inl (Phase.isForced_iff.1 hp)
    · have hm : m.isDoomed = false := by
        show (m.works || m.isForced) = false
        rw [hidle, hnone m (List.mem_of_getElem? hm)]
        rfl
      have hm' : (m'.works || m'.isForced) = false := hsame.trans hm
      exact (Bool.or_eq_false_iff.1 hm').2
  · have hcount := hq.doomed hproper hended
    rw [countP_isDoomed, countP_isDoomed] at hcount
    have hzero : p.members.countP Member.isForced = 0 :=
      List.countP_eq_zero.2 fun m hm => Bool.eq_false_iff.1 (hnone m hm)
    rw [hcount, hzero, Nat.zero_add]
  · intro r hr
    have hq := hproper.traffic.replay hevents
    rw [(hq.forced_of_done hr).2, hrecorded, ← hproper.held]
    exact Nat.le_trans (Nat.le_add_right _ _) (hproper.traffic.ended hended)

/-- A request is about to be dispatched when the shutdown ends. -/
theorem forced_before_dispatch :
    let rules : ConnectionRules := ⟨⟨.empty, ⟨0⟩⟩, 10, 64, false, Gzip.gzip⟩
    ∃ o p q r, Run rules start o ∧ Move rules o p ∧ Run rules p q ∧ p.members.countP Member.works = 1 ∧
      q.members.countP Member.isForced = 1 ∧ .done r ∈ q.traffic.calls ∧ 1 ≤ r.forced := by
  intro rules
  let b := Bytes.ofText "GET / HTTP/1.1\r\n\r\n"
  -- the request has come
  obtain ⟨life, hread, hphase, hbuffer⟩ : ∃ life, Run rules start ⟨accepted, [⟨life, true⟩]⟩ ∧
      life.connection.phase = .examining 10 ∧ life.connection.buffer.bytes = b := by
    have hsent := (run_accepted rules 64).live_one (.send b rfl) rfl rfl
    have hwaits := hsent.live_one (.step .empty rfl) rfl rfl
    refine ⟨_, hwaits.live_one (.step .empty rfl) rfl rfl, rfl, ?_⟩
    decide
  have hfront : Request.front? b = some (.new .get "/", []) := by decide
  have hfound : Admission.ofBuffer 64 life.connection.buffer.bytes = .serve (.new .get "/") [] := by
    rw [hbuffer]
    exact Admission.serve_of_front? hfront (by decide)
  obtain ⟨life, htaken, hphase⟩ : ∃ life, Run rules start ⟨accepted, [⟨life, true⟩]⟩ ∧
      life.connection.phase = .dispatching (.new .get "/") := by
    have hstep : life.connection.step (rules.withTable .empty) 0 .running = some ({ life.connection with
        phase := .dispatching (.new .get "/"), buffer := life.connection.buffer.keep [] }.move .active) := by
      have hexamine : Admission.ofBuffer (rules.withTable .empty).maxRequestBytes life.connection.buffer.bytes =
        .serve (.new .get "/") [] := hfound
      rw [Connection.step, hphase]
      simp only [Connection.examine, ShutdownState.isRunning, Bool.not_true, Bool.false_eq_true, if_false, hexamine]
    exact ⟨_, hread.live_one (.step .empty hstep) rfl rfl, Connection.phase_move _ _⟩
  have hworking : ∀ sequel, life.connection.phase ≠ .answering [] sequel := by
    intro sequel hanswering
    rw [hphase] at hanswering
    cases hanswering
  obtain ⟨hbegun, hends, hreported⟩ := run_ended rules ⟨life, true⟩ hworking
  have hrun := htaken.trans hbegun
  have hworks : life.connection.phase.works = true := by
    rw [hphase]
    rfl
  have hforced := hreported.live_one (.step .empty (Connection.step_of_works rfl hworks)) rfl rfl
  have hone : Member.works ⟨life, true⟩ = true := hworks
  obtain ⟨-, hcount, -, hreport⟩ := forced_when_ended hrun rfl hends rfl hforced
  have hp : [Member.mk life true].countP Member.works = 1 := by
    rw [List.countP_cons, hone]
    rfl
  refine ⟨_, _, _, ⟨1⟩, hrun, hends, hforced, hp, hcount.trans hp, List.mem_singleton_self _,
    hreport _ (List.mem_singleton_self _)⟩

/-- A peer has sent a part of a request when the shutdown ends. Its connection is counted as forced, but it reads on for
a while, writes a refusal, and ends as drained. -/
theorem spared_while_reading :
    let rules : ConnectionRules := ⟨⟨.empty, ⟨0⟩⟩, 10, 64, false, Gzip.gzip⟩
    ∃ o p q m m', Run rules start o ∧ o.traffic.coordinator.state.isTerminated = false ∧ Move rules o p ∧
      p.traffic.coordinator.state.isTerminated = true ∧ p.members = [m] ∧ m.registered = true ∧ m.life.written = [] ∧
      Run rules p q ∧ q.members = [m'] ∧ m'.life.connection.phase = .closed .drained ∧ m'.life.written = drainRefusal ∧
      drainRefusal ≠ [] ∧ q.members.countP Member.isForced = 0 ∧ .done ⟨1⟩ ∈ q.traffic.calls := by
  intro rules
  let life : Lifetime := { Lifetime.start rules ⟨1⟩ 4096 0 with
    connection := { Connection.accept ⟨1⟩ 4096 0 rules with inbound := ⟨4096, [71], [], false⟩ }
    sent := [71] }
  have hsent : Run rules start ⟨accepted, [⟨life, true⟩]⟩ :=
    (run_accepted rules 4096).live_one (.send [71] rfl) rfl rfl
  obtain ⟨hbegun, hends, hreported⟩ := run_ended rules ⟨life, true⟩ nofun
  have hlingers := hreported.live_one (.step .empty rfl) rfl rfl
  have hread := hlingers.live_one (.step .empty rfl) rfl rfl
  have hlate : Run rules _ ⟨reported 50, _⟩ := hread.move (.coordinate (.pass 50) rfl rfl (.inl rfl))
  have hrefuses := hlate.live_one (.step .empty rfl) rfl rfl
  have hwritten := hrefuses.live_one (.step .empty rfl) rfl rfl
  have hclosed := hwritten.live_one (.step .empty rfl) rfl rfl
  refine ⟨_, _, _, _, _, hsent.trans hbegun, rfl, hends, rfl, rfl, rfl, rfl, hclosed, rfl, rfl, ?_, ?_, rfl,
    List.mem_singleton_self _⟩
  all_goals decide +kernel

end Operation

end Hypertext
