/-
What overlapping calls on one coordinator come to. The shutdown only moves on; the counter covers every live guard; no
guard is handed out to a call that looks at the state of the shutdown after it has begun; all requests give one report,
and it counts the guards that were live, and the calls that were counted and not decided, when the counter was read.
-/
import Hypertext.Proofs.Shutdown.Traffic

namespace Hypertext

namespace Traffic

variable {t u v : Traffic} {e : TrafficEvent} {events earlier later : List TrafficEvent}

/-! ## What calls find -/

/-- What is not a step of a request leaves the shutdown as it is. -/
theorem step_shutdown (hstep : t.step e = some u) (hne : ∀ k, e ≠ .call k) :
    u.coordinator.state = t.coordinator.state ∧ u.coordinator.forced = t.coordinator.forced ∧
      ∃ fresh, u.calls = t.calls ++ fresh ∧ ∀ call ∈ fresh, ∃ grace, call = .fresh grace := by
  have hnone : ∃ fresh, t.calls = t.calls ++ fresh ∧ ∀ call ∈ fresh, ∃ grace, call = ShutdownCall.fresh grace :=
    ⟨[], (List.append_nil _).symm, nofun⟩
  cases e with
  | enter => cases hstep; exact ⟨rfl, rfl, hnone⟩
  | register i =>
    obtain ⟨before, call, after, next, c, -, hnext, rfl⟩ := step_register hstep
    obtain ⟨hstate, hforced⟩ := RegisterCall.shutdown_step hnext
    exact ⟨hstate, hforced, hnone⟩
  | drop =>
    simp only [Traffic.step] at hstep
    split at hstep
    · cases hstep; exact ⟨rfl, rfl, hnone⟩
    · cases hstep
  | shutDown grace =>
    cases hstep
    refine ⟨rfl, rfl, [.fresh grace], rfl, ?_⟩
    intro call hcall
    exact ⟨grace, List.mem_singleton.1 hcall⟩
  | call k => exact absurd rfl (hne k)
  | pass ms => cases hstep; exact ⟨rfl, rfl, hnone⟩

/-- The state of the shutdown stays or moves on. -/
theorem Sound.goesTo (h : t.Sound) (hstep : t.step e = some u) :
    t.coordinator.state.GoesTo u.coordinator.state := by
  by_cases hcall : ∃ k, e = .call k
  · obtain ⟨k, rfl⟩ := hcall
    obtain ⟨before, call, after, next, c, -, hcalls, hnext, rfl⟩ := step_call hstep
    have hstands : call.Stands t.coordinator t.seats := by
      refine h.calls call ?_
      rw [hcalls]
      exact List.mem_append_right _ (List.mem_cons_self ..)
    cases call with
    | fresh grace =>
      simp only [ShutdownCall.step] at hnext
      split at hnext
      · next hruns =>
        cases hnext
        refine .inr (.inl ⟨?_, rfl⟩)
        cases hs : t.coordinator.state with
        | running => rfl
        | draining deadline => rw [hs] at hruns; cases hruns
        | terminated => rw [hs] at hruns; cases hruns
      · cases hnext; exact .inl rfl
    | draining deadline | waiting =>
      simp only [ShutdownCall.step] at hnext
      split at hnext
      · cases hnext; exact .inl rfl
      · cases hnext
    | ending =>
      cases hnext
      exact .inr (.inr ⟨hstands.1, rfl⟩)
    | counting | recording forced | reporting => cases hnext; exact .inl rfl
    | done report => cases hnext
  · exact .inl (step_shutdown hstep fun k hk => hcall ⟨k, hk⟩).1

/-- A shutdown that has begun does not run again. -/
theorem Sound.stopped (h : t.Sound) (hstep : t.step e = some u) (hs : t.coordinator.state.isRunning = false) :
    u.coordinator.state.isRunning = false := by
  rcases h.goesTo hstep with hsame | ⟨hruns, -⟩ | ⟨-, hended⟩
  · rw [hsame]; exact hs
  · rw [hruns] at hs; cases hs
  · rw [hended]; rfl

/-- What has been recorded when the shutdown has ended stays so. -/
theorem Sound.ended_step (h : t.Sound) (hstep : t.step e = some u) (hs : t.coordinator.state.isTerminated = true) :
    u.coordinator.state.isTerminated = true ∧ u.coordinator.forced = t.coordinator.forced := by
  by_cases hcall : ∃ k, e = .call k
  · obtain ⟨k, rfl⟩ := hcall
    obtain ⟨before, call, after, next, c, -, hcalls, hnext, rfl⟩ := step_call hstep
    have hidle : call.leads = false := by
      cases hl : call.leads with
      | false => rfl
      | true =>
        have hgoes := (h.others hcalls (.inl hl)).1
        rw [hs] at hgoes
        cases hgoes
    rw [ShutdownCall.step_of_idle hnext hidle (ShutdownState.isRunning_of_isTerminated hs)]
    exact ⟨hs, rfl⟩
  · obtain ⟨hstate, hforced, -⟩ := step_shutdown hstep fun k hk => hcall ⟨k, hk⟩
    exact ⟨hstate ▸ hs, hforced⟩

theorem Sound.ended_replay (h : t.Sound) (hs : t.coordinator.state.isTerminated = true)
    (hreplay : t.replay events = some u) :
    u.coordinator.state.isTerminated = true ∧ u.coordinator.forced = t.coordinator.forced := by
  have hall := replay_keeps (P := fun u => u.Sound ∧ u.coordinator.state.isTerminated = true ∧
    u.coordinator.forced = t.coordinator.forced) ?_ ⟨h, hs, rfl⟩ hreplay
  · exact hall.2
  · rintro e u v ⟨hu, hended, hforced⟩ hstep
    obtain ⟨hended', hforced'⟩ := hu.ended_step hstep hended
    exact ⟨hu.step hstep, hended', hforced'.trans hforced⟩

/-- Every report tells what has been recorded. -/
theorem Sound.forced_of_done (h : t.Sound) {r : ShutdownReport} (hr : .done r ∈ t.calls) :
    t.coordinator.state.isTerminated = true ∧ r.forced = t.coordinator.forced := by
  obtain ⟨hended, rfl⟩ := h.calls _ hr
  exact ⟨hended, rfl⟩

/-- Once the shutdown has begun a call that has not been granted a guard never is. -/
theorem step_grants (hstep : t.step e = some u) (hs : t.coordinator.state.isRunning = false) {i : Nat}
    (h : ∀ call, t.entries[i]? = some call → call.grants = false) :
    ∀ call, u.entries[i]? = some call → call.grants = false := by
  cases e with
  | enter =>
    cases hstep
    intro call hcall
    rw [List.getElem?_append] at hcall
    split at hcall
    · exact h call hcall
    · rw [List.mem_singleton.1 (List.mem_of_getElem? hcall)]
      rfl
  | register j =>
    obtain ⟨before, hbefore, hstep⟩ := Option.bind_eq_some_iff.1 hstep
    obtain ⟨⟨next, c⟩, hnext, rfl⟩ := Option.map_eq_some_iff.1 hstep
    intro call hcall
    simp only [List.getElem?_set] at hcall
    split at hcall
    · next hij =>
      subst hij
      have hgrants := h before hbefore
      split at hcall
      · cases hcall
        cases before with
        | counted =>
          simp only [RegisterCall.step, hs, Bool.false_eq_true, if_false] at hnext
          cases hnext
          rfl
        | admitted => cases hgrants
        | fresh | refused => cases hnext; rfl
        | done id => cases hnext
      · cases hcall
    · exact h call hcall
  | drop =>
    simp only [Traffic.step] at hstep
    split at hstep
    · cases hstep; exact h
    · cases hstep
  | shutDown grace => cases hstep; exact h
  | call k =>
    obtain ⟨before, call, after, next, c, -, -, -, rfl⟩ := step_call hstep
    exact h
  | pass ms => cases hstep; exact h

theorem Sound.replay_grants (h : t.Sound) (hs : t.coordinator.state.isRunning = false)
    (hreplay : t.replay events = some u) {i : Nat} (hi : ∀ call, t.entries[i]? = some call → call.grants = false) :
    ∀ call, u.entries[i]? = some call → call.grants = false := by
  have hall := replay_keeps (P := fun u => u.Sound ∧ u.coordinator.state.isRunning = false ∧
    ∀ call, u.entries[i]? = some call → call.grants = false) ?_ ⟨h, hs, hi⟩ hreplay
  · exact hall.2.2
  · rintro e u v ⟨hu, hstops, hgrants⟩ hstep
    exact ⟨hu.step hstep, hu.stopped hstep hstops, step_grants hstep hstops hgrants⟩

/-! ## The count -/

/-- So many connections have been counted: a call is going to record that, or has. -/
def Counted (n : Nat) (t : Traffic) : Prop :=
  .recording n ∈ t.calls ∨ .ending ∈ t.calls ∧ t.coordinator.forced = n ∨
    t.coordinator.state.isTerminated = true ∧ t.coordinator.forced = n

theorem Sound.counted_step (h : t.Sound) {n : Nat} (hn : t.Counted n) (hstep : t.step e = some u) : u.Counted n := by
  by_cases hcall : ∃ k, e = .call k
  · obtain ⟨k, rfl⟩ := hcall
    rcases hn with hn | ⟨hn, hforced⟩ | ⟨hended, hforced⟩
    · obtain ⟨before, call, after, next, c, -, hcalls, hnext, rfl⟩ := step_call hstep
      rw [hcalls, List.mem_append, List.mem_cons] at hn
      rcases hn with hn | rfl | hn
      · exact .inl (List.mem_append_left _ hn)
      · cases hnext
        exact .inr (.inl ⟨List.mem_append_right _ (List.mem_cons_self ..), rfl⟩)
      · exact .inl (List.mem_append_right _ (List.mem_cons_of_mem _ hn))
    · obtain ⟨before, call, after, next, c, -, hcalls, hnext, rfl⟩ := step_call hstep
      have hstops := ShutdownState.isRunning_of_isDraining (h.calls _ hn).1
      rw [hcalls, List.mem_append, List.mem_cons] at hn
      cases hl : call.leads with
      | true =>
        -- the call is the one that has recorded the count, since no other one leads
        obtain ⟨-, hothers⟩ := h.others hcalls (.inl hl)
        rcases hn with hn | rfl | hn
        · cases hothers _ (List.mem_append_left _ hn)
        · cases hnext
          exact .inr (.inr ⟨rfl, hforced⟩)
        · cases hothers _ (List.mem_append_right _ hn)
      | false =>
        rw [ShutdownCall.step_of_idle hnext hl hstops]
        refine .inr (.inl ⟨?_, hforced⟩)
        rcases hn with hn | rfl | hn
        · exact List.mem_append_left _ hn
        · cases hl
        · exact List.mem_append_right _ (List.mem_cons_of_mem _ hn)
    · obtain ⟨hended', hforced'⟩ := h.ended_step hstep hended
      exact .inr (.inr ⟨hended', hforced'.trans hforced⟩)
  · obtain ⟨hstate, hforced, fresh, hcalls, -⟩ := step_shutdown hstep fun k hk => hcall ⟨k, hk⟩
    rw [Counted, hstate, hforced, hcalls]
    exact hn.imp (List.mem_append_left _) (.imp_left (.imp_left (List.mem_append_left _)))

theorem Sound.counted_replay (h : t.Sound) {n : Nat} (hn : t.Counted n) (hreplay : t.replay events = some u) :
    u.Counted n :=
  (replay_keeps (P := fun u => u.Sound ∧ u.Counted n)
    (fun _ _ _ ht hstep => ⟨ht.1.step hstep, ht.1.counted_step ht.2 hstep⟩) ⟨h, hn⟩ hreplay).2

/-- A report tells the count. -/
theorem Sound.forced_of_counted (h : t.Sound) {n : Nat} (hn : t.Counted n) {r : ShutdownReport}
    (hr : .done r ∈ t.calls) : r.forced = n := by
  obtain ⟨hended, hforced⟩ := h.forced_of_done hr
  have hover : ¬t.coordinator.state.isDraining = true := by
    intro hdraining
    rw [ShutdownState.isTerminated_of_isDraining hdraining] at hended
    cases hended
  rcases hn with hn | ⟨hn, -⟩ | ⟨-, hn⟩
  · exact absurd (h.calls _ hn).1 hover
  · exact absurd (h.calls _ hn).1 hover
  · exact hforced.trans hn

/-- The counter is read when the request that leads goes on after it has waited. -/
def Reads (t : Traffic) (k : Nat) : Prop := t.calls[k]? = some .counting

/-- What is read are the live guards and the calls that are counted and not decided. -/
theorem Sound.counted_of_reads (h : t.Sound) {k : Nat} (hk : t.Reads k) (hstep : t.step (.call k) = some u) :
    u.Counted (t.guards + t.pending) := by
  obtain ⟨before, call, after, next, c, hcall, -, hnext, rfl⟩ := step_call hstep
  rw [hk] at hcall
  cases hcall
  cases hnext
  rw [← h.count]
  exact .inl (List.mem_append_right _ (List.mem_cons_self ..))

/-- Whether the counter has been read. -/
def IsCounted (t : Traffic) : Prop :=
  t.coordinator.state.isTerminated = true ∨ ∃ call ∈ t.calls, call.hasCounted = true

/-- The counter has been read before, or is read now. -/
theorem reads_of_isCounted (hstep : t.step e = some u) (hu : u.IsCounted) :
    t.IsCounted ∨ ∃ k, e = .call k ∧ t.Reads k := by
  by_cases hcall : ∃ k, e = .call k
  · obtain ⟨k, rfl⟩ := hcall
    obtain ⟨before, call, after, next, c, hk, hcalls, hnext, rfl⟩ := step_call hstep
    have hmem : call ∈ t.calls := List.mem_of_getElem? hk
    have hearlier : next.hasCounted = false →
        (c.state.isTerminated = true → t.coordinator.state.isTerminated = true) → t.IsCounted := by
      intro hnot hended
      rcases hu with hu | ⟨other, hother, hcounted⟩
      · exact .inl (hended hu)
      · refine .inr ⟨other, ?_, hcounted⟩
        rw [hcalls, List.mem_append, List.mem_cons]
        rw [List.mem_append, List.mem_cons] at hother
        rcases hother with hother | rfl | hother
        · exact .inl hother
        · rw [hnot] at hcounted
          cases hcounted
        · exact .inr (.inr hother)
    cases call with
    | fresh grace =>
      simp only [ShutdownCall.step] at hnext
      split at hnext
      · cases hnext
        exact .inl (hearlier rfl fun hended => by cases hended)
      · cases hnext
        exact .inl (hearlier rfl id)
    | draining deadline | waiting =>
      simp only [ShutdownCall.step] at hnext
      split at hnext
      · cases hnext
        exact .inl (hearlier rfl id)
      · cases hnext
    | counting => exact .inr ⟨k, rfl, hk⟩
    | recording forced => exact .inl (.inr ⟨_, hmem, rfl⟩)
    | ending => exact .inl (.inr ⟨_, hmem, rfl⟩)
    | reporting =>
      cases hnext
      exact .inl (hearlier rfl id)
    | done report => cases hnext
  · obtain ⟨hstate, -, fresh, hcalls, hfresh⟩ := step_shutdown hstep fun k hk => hcall ⟨k, hk⟩
    rw [IsCounted, hstate, hcalls] at hu
    rcases hu with hu | ⟨call, hmem, hcounted⟩
    · exact .inl (.inl hu)
    · rcases List.mem_append.1 hmem with hmem | hmem
      · exact .inl (.inr ⟨call, hmem, hcounted⟩)
      · obtain ⟨grace, rfl⟩ := hfresh call hmem
        cases hcounted

/-- A shutdown that has ended has read the counter at some time. -/
theorem exists_reads (hreplay : t.replay events = some v) (ht : ¬t.IsCounted) (hv : v.IsCounted) :
    ∃ earlier k later u, events = earlier ++ .call k :: later ∧ t.replay earlier = some u ∧ u.Reads k := by
  induction events generalizing t with
  | nil =>
    cases hreplay
    exact absurd hv ht
  | cons e rest ih =>
    obtain ⟨u, hstep, hrest⟩ := Option.bind_eq_some_iff.1 hreplay
    by_cases hu : u.IsCounted
    · obtain ⟨k, rfl, hreads⟩ := (reads_of_isCounted hstep hu).resolve_left ht
      exact ⟨[], k, rest, t, rfl, rfl, hreads⟩
    · obtain ⟨earlier, k, later, w, rfl, hw, hreads⟩ := ih hrest hu
      refine ⟨e :: earlier, k, later, w, rfl, ?_, hreads⟩
      rw [replay, hstep]
      exact hw

/-! ## Main results -/

/-- However calls to register connections, dropped guards and requests to shut down overlap: the state of the shutdown
only moves on; the counter covers the live guards, and whoever takes a connection off it finds it positive; once the
shutdown has begun no call is granted a guard that has not been granted one before; if a report says that nobody was
forced, no guard is live when the shutdown ends, or ever after; and all reports are the same. -/
theorem safety_of_replay (h : start.replay events = some t) :
    (∀ e u, t.step e = some u → t.coordinator.state.GoesTo u.coordinator.state) ∧
    t.coordinator.live = t.guards + t.pending ∧
    (0 < t.guards ∨ .refused ∈ t.entries → 0 < t.coordinator.live) ∧
    (t.coordinator.state.isRunning = false → ∀ later u, t.replay later = some u →
      ∀ i : Nat, (∀ call : RegisterCall, t.entries[i]? = some call → call.grants = false) →
        ∀ call : RegisterCall, u.entries[i]? = some call → call.grants = false) ∧
    (∀ e u, t.step e = some u → t.coordinator.state.isTerminated = false →
      u.coordinator.state.isTerminated = true → ∀ later v r, u.replay later = some v → .done r ∈ v.calls →
        r.forced = 0 → u.guards = 0 ∧ ∀ further w, u.replay further = some w → w.guards = 0) ∧
    (∀ r r', .done r ∈ t.calls → .done r' ∈ t.calls → r = r') := by
  have ht : t.Sound := sound_start.replay h
  refine ⟨fun e u => ht.goesTo, ht.count, ?_, fun hs later u hu i => ht.replay_grants hs hu, ?_, ?_⟩
  · rw [ht.count]
    rintro (hguards | hrefused)
    · exact Nat.add_pos_left hguards _
    · exact Nat.add_pos_right _ (List.countP_pos_iff.2 ⟨_, hrefused, rfl⟩)
  · intro e u hstep _ hended later v r hv hr hclean
    have hu := ht.step hstep
    have hzero : u.coordinator.forced = 0 := by
      obtain ⟨-, hforced⟩ := hu.ended_replay hended hv
      rw [← hforced, ← ((hu.replay hv).forced_of_done hr).2, hclean]
    have hnone : ∀ further w, u.replay further = some w → w.guards = 0 := by
      intro further w hw
      obtain ⟨hended', hforced'⟩ := hu.ended_replay hended hw
      have hle := (hu.replay hw).ended hended'
      rw [hforced', hzero, seats] at hle
      omega
    exact ⟨hnone [] u rfl, hnone⟩
  · intro r r' hr hr'
    rw [(ht.calls _ hr).2, (ht.calls _ hr').2]

/-- A call that is counted while the coordinator runs and looks after the shutdown has begun is never granted a
guard. -/
theorem safety_of_late_look : ∃ t, start.replay [.enter, .register 0, .shutDown 1000, .call 0] = some t ∧
    t.entries = [.counted] ∧ t.coordinator.live = t.guards + t.pending ∧
    ∀ later u, t.replay later = some u → ∀ call : RegisterCall, u.entries[0]? = some call → call.grants = false := by
  have ht : start.replay [.enter, .register 0, .shutDown 1000, .call 0] =
      some ⟨0, ⟨.draining 1000, 1, 1, 0⟩, [.counted], 0, [.draining 1000]⟩ := rfl
  obtain ⟨-, hcount, -, hlate, -⟩ := safety_of_replay ht
  refine ⟨_, ht, rfl, hcount, fun later u hu => hlate rfl later u hu 0 ?_⟩
  rintro call ⟨⟩
  rfl

/-- Every report tells what was found when the counter was read: the guards that were live, and the calls that were
counted and not decided. -/
theorem forced_of_replay (h : start.replay events = some v) {r : ShutdownReport} (hr : .done r ∈ v.calls) :
    (∃ earlier k later t, events = earlier ++ .call k :: later ∧ start.replay earlier = some t ∧ t.Reads k) ∧
    ∀ earlier k later t, events = earlier ++ .call k :: later → start.replay earlier = some t → t.Reads k →
      r.forced = t.guards + t.pending := by
  have hv : v.Sound := sound_start.replay h
  refine ⟨exists_reads h ?_ (.inl (hv.forced_of_done hr).1), ?_⟩
  · rintro (hended | ⟨call, hcall, -⟩)
    · cases hended
    · cases hcall
  · rintro earlier k later t rfl ht hreads
    have hsound : t.Sound := sound_start.replay ht
    rw [replay_append_of_eq ht, replay] at h
    obtain ⟨u, hstep, hlater⟩ := Option.bind_eq_some_iff.1 h
    exact hv.forced_of_counted
      ((hsound.step hstep).counted_replay (hsound.counted_of_reads hreads hstep) hlater) hr

/-- One connection is accepted and stays open beyond the deadline; another one is counted before the counter is read. -/
def overrun : List TrafficEvent :=
  [.enter, .register 0, .register 0, .register 0, .shutDown 10, .call 0, .pass 10, .call 0, .enter, .register 1]

theorem forced_of_overrun : ∃ t v, start.replay overrun = some t ∧ t.guards = 1 ∧ t.pending = 1 ∧
    start.replay (overrun ++ [.call 0, .call 0, .call 0, .call 0]) = some v ∧
    ∃ r, .done r ∈ v.calls ∧ r.forced = t.guards + t.pending := by
  have hv : start.replay (overrun ++ [.call 0, .call 0, .call 0, .call 0]) =
      some ⟨10, ⟨.terminated, 2, 2, 2⟩, [.done (some ⟨1⟩), .counted], 1, [.done ⟨2⟩]⟩ := rfl
  refine ⟨⟨10, ⟨.draining 10, 2, 2, 0⟩, [.done (some ⟨1⟩), .counted], 1, [.counting]⟩, _, rfl, rfl, rfl, hv, ⟨2⟩,
    List.mem_singleton_self _, ?_⟩
  exact (forced_of_replay hv (List.mem_singleton_self _)).2 overrun 0 [.call 0, .call 0, .call 0] _ rfl rfl rfl

/-- No guard has ever been handed out and the deadline is far off, but a call to register has been counted between the
look that ended the wait and the reading of the counter. It is refused, and reported as forced. -/
theorem forced_of_refused : ∃ t v,
    start.replay [.shutDown 1000, .call 0, .call 0, .enter, .register 0] = some t ∧ t.Reads 0 ∧ t.now = 0 ∧
    t.guards = 0 ∧ t.replay [.call 0, .register 0, .register 0, .call 0, .call 0, .call 0] = some v ∧
    v.entries = [.done none] ∧ ∃ r, .done r ∈ v.calls ∧ t.guards < r.forced :=
  ⟨_, _, rfl, rfl, rfl, rfl, rfl, rfl, ⟨1⟩, by decide, by decide⟩

end Traffic

end Hypertext
