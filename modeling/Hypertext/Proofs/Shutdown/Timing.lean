/-
When a shutdown is over and what it comes to. The request that begins it drains until the last guard is dropped, or until
its own deadline; it counts those that are still held and ends the shutdown at this very moment, and everybody else is
done then, or as soon as they ask.

The times are read off the guards: a moment is fixed by when they are dropped, and the invariant says on which side of it
the clock is while the request drains, decides, and is done.
-/
import Hypertext.Proofs.Shutdown.Closedown

namespace Hypertext

/-! ## The moment -/

/-- The last of the times at which guards are dropped, and not before some time. Those that are not dropped are held until
the deadline. -/
def lastDrop (begun deadline : Nat) (drops : List (Option Nat)) : Nat :=
  drops.foldr (fun drop last => max (drop.getD deadline) last) begun

/-- When draining is over that began at some time: when the last guard is dropped, or at the deadline if that is
earlier. -/
def drainedAt (begun deadline : Nat) (drops : List (Option Nat)) : Nat := min deadline (lastDrop begun deadline drops)

/-- How many guards are not dropped by some time. -/
def heldAt (time : Nat) (drops : List (Option Nat)) : Nat := drops.countP fun drop => !drop.any (· ≤ time)

section Moment

variable {begun deadline time i : Nat} {drops : List (Option Nat)}

theorem le_lastDrop_iff : time ≤ lastDrop begun deadline drops ↔
    time ≤ begun ∨ ∃ drop ∈ drops, time ≤ drop.getD deadline := by
  induction drops with
  | nil => simp [lastDrop]
  | cons drop rest ih =>
    have hmax : time ≤ lastDrop begun deadline (drop :: rest) ↔
        time ≤ drop.getD deadline ∨ time ≤ lastDrop begun deadline rest := by
      simp only [lastDrop, List.foldr_cons]
      omega
    rw [hmax, ih]
    simp only [List.mem_cons, exists_eq_or_imp]
    exact or_left_comm

theorem lastDrop_le_iff : lastDrop begun deadline drops ≤ time ↔
    begun ≤ time ∧ ∀ drop ∈ drops, drop.getD deadline ≤ time := by
  induction drops with
  | nil => simp [lastDrop]
  | cons drop rest ih =>
    have hmax : lastDrop begun deadline (drop :: rest) ≤ time ↔
        drop.getD deadline ≤ time ∧ lastDrop begun deadline rest ≤ time := Nat.max_le
    rw [hmax, ih, List.forall_mem_cons]
    exact and_left_comm

theorem drainedAt_le_deadline : drainedAt begun deadline drops ≤ deadline := Nat.min_le_left _ _

theorem begun_le_drainedAt (h : begun ≤ deadline) : begun ≤ drainedAt begun deadline drops :=
  Nat.le_min.2 ⟨h, le_lastDrop_iff.2 (.inl (Nat.le_refl _))⟩

/-- While a guard is held draining goes on until the deadline. -/
theorem drainedAt_of_held (h : none ∈ drops) : drainedAt begun deadline drops = deadline :=
  Nat.min_eq_left (le_lastDrop_iff.2 (.inr ⟨none, h, Nat.le_refl _⟩))

/-- When all guards have been dropped draining is over. -/
theorem drainedAt_le_of_dropped (hbegun : begun ≤ time)
    (h : ∀ drop ∈ drops, ∃ earlier, drop = some earlier ∧ earlier ≤ time) : drainedAt begun deadline drops ≤ time := by
  refine Nat.le_trans (Nat.min_le_right _ _) (lastDrop_le_iff.2 ⟨hbegun, ?_⟩)
  intro drop hdrop
  obtain ⟨earlier, rfl, hle⟩ := h drop hdrop
  exact hle

/-- Draining is not over before a guard is dropped that is dropped in time. -/
theorem le_drainedAt_set (h : i < drops.length) (hle : time ≤ deadline) :
    time ≤ drainedAt begun deadline (drops.set i (some time)) :=
  Nat.le_min.2 ⟨hle, le_lastDrop_iff.2 (.inr ⟨some time, List.mem_set h _, Nat.le_refl _⟩)⟩

/-- A guard that is dropped too late does not change when draining is over. -/
theorem drainedAt_set_of_late (h : drops[i]? = some none) (hlate : deadline ≤ time) :
    drainedAt begun deadline (drops.set i (some time)) = drainedAt begun deadline drops := by
  have hmem : some time ∈ drops.set i (some time) := List.mem_set (List.getElem?_eq_some_iff.1 h).1 _
  have hle : deadline ≤ lastDrop begun deadline (drops.set i (some time)) :=
    le_lastDrop_iff.2 (.inr ⟨some time, hmem, hlate⟩)
  rw [drainedAt_of_held (List.mem_of_getElem? h), drainedAt, Nat.min_eq_left hle]

/-- A guard that is dropped later is held by then. -/
theorem heldAt_set_of_late {late : Nat} (h : drops[i]? = some none) (hlate : time < late) :
    heldAt time (drops.set i (some late)) = heldAt time drops := by
  obtain ⟨before, after, hsplit, hset⟩ := split_of_getElem? h
  rw [hset, hsplit, heldAt, heldAt, countP_middle, countP_middle]
  simp [hlate]

end Moment

namespace Closedown

variable {u v w : Closedown} {e : ClosedownEvent} {events earlier later own : List ClosedownEvent}
  {begun grace i j k : Nat}

/-- When the guards were dropped. -/
def drops (w : Closedown) : List (Option Nat) := w.stays.map Stay.dropped

/-- When the request is done with draining that was made at some time. -/
def finish (begun grace : Nat) (w : Closedown) : Nat := drainedAt begun (begun + grace) w.drops

/-- How many connections are forced by it. -/
def lost (begun grace : Nat) (w : Closedown) : Nat := heldAt (w.finish begun grace) w.drops

/-- When a guard was dropped. -/
def dropOf (i : Nat) (w : Closedown) : Option Nat := w.drops[i]?.join

/-! ## The guards -/

theorem drops_rouse (h : w.step (.rouse i) = some v) : v.drops = w.drops := by
  obtain ⟨time, hstay, rfl⟩ := step_rouse h
  obtain ⟨before, after, hsplit, hset⟩ := split_of_getElem? hstay
  unfold drops
  simp only [hset, List.map_append, List.map_cons]
  rw [hsplit, List.map_append, List.map_cons]
  rfl

theorem drops_drop (h : w.step (.drop i) = some v) :
    w.drops[i]? = some none ∧ v.drops = w.drops.set i (some w.now) := by
  obtain ⟨hheld, next, hnext, -, rfl⟩ := step_drop h
  unfold drops
  constructor
  · rw [List.getElem?_map, hheld]
    rfl
  · rw [List.map_set, hnext]

theorem mem_drops_of_live (h : w.Sound) (hlive : 0 < w.coordinator.live) : none ∈ w.drops := by
  rw [h.replayed.live_eq] at hlive
  obtain ⟨stay, hstay, hheld⟩ := List.countP_pos_iff.1 hlive
  cases stay with
  | held => exact List.mem_map_of_mem (f := Stay.dropped) hstay
  | _ => cases hheld

/-- When nobody is live all guards have been dropped before. -/
theorem dropped_of_not_live (h : w.Sound) (hlive : w.coordinator.live = 0) :
    ∀ drop ∈ w.drops, ∃ time, drop = some time ∧ time ≤ w.now := by
  intro drop hdrop
  obtain ⟨stay, hstay, rfl⟩ := List.mem_map.1 hdrop
  rw [h.replayed.live_eq] at hlive
  have hgone := List.countP_eq_zero.1 hlive stay hstay
  have hle := h.dropped stay hstay
  cases stay with
  | held => exact absurd rfl hgone
  | _ => exact ⟨_, rfl, hle _ rfl⟩

/-- The counter is the number of guards that are held by now. -/
theorem live_eq_heldAt (h : w.Sound) : w.coordinator.live = heldAt w.now w.drops := by
  rw [h.replayed.live_eq, heldAt, drops, List.countP_map]
  refine List.countP_congr fun stay hstay => ?_
  have hle := h.dropped stay hstay
  cases stay with
  | held => simp [Stay.isHeld, Stay.dropped]
  | _ => simp [Stay.isHeld, Stay.dropped, hle _ rfl]

/-- The requests that are made or go on, the wake-ups, and time leave the guards as they are; and so does a call to
register once the shutdown has begun. -/
theorem drops_step (h : w.step e = some v) (hbegun : w.coordinator.state.isRunning = false)
    (hdrop : ∀ i, e ≠ .drop i) : v.drops = w.drops := by
  cases e with
  | register =>
    obtain rfl := step_register h
    unfold drops
    rw [Coordinator.register_eq, if_neg (Bool.eq_false_iff.1 hbegun)]
    simp
  | drop i => exact absurd rfl (hdrop i)
  | rouse i => exact drops_rouse h
  | shutDown grace => cases h; rfl
  | call k =>
    obtain ⟨t, next, c, -, -, rfl⟩ := step_call h
    rfl
  | tick =>
    obtain ⟨-, rfl⟩ := step_tick h
    rfl

/-! ## What is kept -/

/-- What is kept once the shutdown has begun: no connection is registered, a guard that is dropped stays dropped, and a
request has been made when it has. -/
structure Keeps (w v : Closedown) : Prop where
  now : w.now ≤ v.now
  guards : v.drops.length = w.drops.length
  dropped : ∀ i time, w.dropOf i = some time → v.dropOf i = some time
  made : ∀ (k : Nat) (t : TimedCall), w.calls[k]? = some t →
    ∃ t' : TimedCall, v.calls[k]? = some t' ∧ t'.made = t.made

theorem Keeps.trans (huw : u.Keeps w) (hwv : w.Keeps v) : u.Keeps v := by
  refine ⟨Nat.le_trans huw.now hwv.now, hwv.guards.trans huw.guards, fun i time h => ?_, fun k t h => ?_⟩
  · exact hwv.dropped i time (huw.dropped i time h)
  · obtain ⟨t', ht', hmade⟩ := huw.made k t h
    obtain ⟨t'', ht'', hmade'⟩ := hwv.made k t' ht'
    exact ⟨t'', ht'', hmade'.trans hmade⟩

/-- Where every guard has been dropped nothing changes for them. -/
theorem Keeps.drops_of_dropped (h : u.Keeps w) (hnone : none ∉ u.drops) : w.drops = u.drops := by
  refine List.ext_getElem h.guards fun i hiw hiu => ?_
  cases hdrop : u.drops[i] with
  | none => exact absurd (hdrop ▸ List.getElem_mem hiu) hnone
  | some time =>
    have hkept : w.dropOf i = some time := by
      refine h.dropped i time ?_
      rw [dropOf, List.getElem?_eq_getElem hiu, hdrop]
      rfl
    rw [dropOf, List.getElem?_eq_getElem hiw] at hkept
    exact hkept

/-- The guards are as they were. -/
theorem Keeps.of_drops (hnow : w.now ≤ v.now) (hdrops : v.drops = w.drops)
    (hmade : ∀ (k : Nat) (t : TimedCall), w.calls[k]? = some t →
      ∃ t' : TimedCall, v.calls[k]? = some t' ∧ t'.made = t.made) : w.Keeps v := by
  refine ⟨hnow, congrArg List.length hdrops, fun i time h => ?_, hmade⟩
  rw [dropOf, hdrops]
  exact h

theorem keeps_drop (h : w.step (.drop i) = some v) : w.Keeps v := by
  obtain ⟨hheld, hdrops⟩ := drops_drop h
  obtain ⟨-, next, -, -, rfl⟩ := step_drop h
  refine ⟨Nat.le_refl _, ?_, fun j time hj => ?_, fun k t ht => ⟨t, ht, rfl⟩⟩
  · rw [hdrops, List.length_set]
  · have hne : i ≠ j := by
      rintro rfl
      rw [dropOf, hheld] at hj
      cases hj
    rw [dropOf, hdrops, List.getElem?_set_ne hne]
    exact hj

theorem keeps_call (h : w.step (.call j) = some v) : w.Keeps v := by
  obtain ⟨before, next, c, hj, -, rfl⟩ := step_call h
  refine .of_drops (Nat.le_refl _) rfl fun k t ht => ?_
  by_cases hjk : j = k
  · subst hjk
    obtain rfl : before = t := Option.some.inj (hj.symm.trans ht)
    exact ⟨_, List.getElem?_set_self (List.getElem?_eq_some_iff.1 hj).1, rfl⟩
  · exact ⟨t, (List.getElem?_set_ne hjk).trans ht, rfl⟩

theorem keeps_step (h : w.step e = some v) (hbegun : w.coordinator.state.isRunning = false) : w.Keeps v := by
  by_cases hdrop : ∃ i, e = .drop i
  · obtain ⟨i, rfl⟩ := hdrop
    exact keeps_drop h
  · have hdrops := drops_step h hbegun fun i hi => hdrop ⟨i, hi⟩
    cases e with
    | register =>
      obtain rfl := step_register h
      exact .of_drops (Nat.le_refl _) hdrops fun k t ht => ⟨t, ht, rfl⟩
    | drop i => exact absurd ⟨i, rfl⟩ hdrop
    | rouse i =>
      obtain ⟨time, -, rfl⟩ := step_rouse h
      exact .of_drops (Nat.le_refl _) hdrops fun k t ht => ⟨t, ht, rfl⟩
    | shutDown grace =>
      cases h
      refine .of_drops (Nat.le_refl _) hdrops fun k t ht => ⟨t, ?_, rfl⟩
      rw [List.getElem?_append_left (List.getElem?_eq_some_iff.1 ht).1]
      exact ht
    | call j => exact keeps_call h
    | tick =>
      obtain ⟨-, rfl⟩ := step_tick h
      exact .of_drops (Nat.le_succ _) hdrops fun k t ht => ⟨t, ht, rfl⟩

/-- A shutdown that has begun goes on. -/
theorem begun_step (h : w.step e = some v) (hbegun : w.coordinator.state.isRunning = false) :
    v.coordinator.state.isRunning = false := by
  cases e with
  | register =>
    obtain rfl := step_register h
    show w.coordinator.register.2.state.isRunning = false
    rw [Coordinator.register_eq, if_neg (Bool.eq_false_iff.1 hbegun)]
    exact hbegun
  | drop i =>
    obtain ⟨-, next, -, -, rfl⟩ := step_drop h
    exact hbegun
  | rouse i =>
    obtain ⟨time, -, rfl⟩ := step_rouse h
    exact hbegun
  | shutDown grace => cases h; exact hbegun
  | call k =>
    obtain ⟨t, next, c, -, hnext, rfl⟩ := step_call h
    exact WaitingCall.begun_step hnext hbegun
  | tick =>
    obtain ⟨-, rfl⟩ := step_tick h
    exact hbegun

/-- No guard that was held is dropped exactly at the deadline. -/
def Untied (u : Closedown) (deadline : Nat) (w : Closedown) : Prop :=
  ∀ i, u.dropOf i = none → w.dropOf i ≠ some deadline

theorem Untied.of_keeps {deadline : Nat} (h : u.Untied deadline v) (hkeeps : w.Keeps v) : u.Untied deadline w :=
  fun i hi htie => h i hi (hkeeps.dropped i deadline htie)

/-- A guard that is dropped now is not dropped at the deadline. -/
theorem Untied.now_ne {deadline : Nat} (h : u.Untied deadline v) (hkeeps : u.Keeps w)
    (hstep : w.step (.drop i) = some v) : w.now ≠ deadline := by
  rintro rfl
  obtain ⟨hheld, hdrops⟩ := drops_drop hstep
  have hlt := (List.getElem?_eq_some_iff.1 hheld).1
  refine h i ?_ ?_
  · cases hu : u.dropOf i with
    | none => rfl
    | some time =>
      have hw := hkeeps.dropped i time hu
      rw [dropOf, hheld] at hw
      cases hw
  · rw [dropOf, hdrops, List.getElem?_set_self hlt]
    rfl

end Closedown

/-! ## The request that leads -/

namespace ShutdownCall

/-- Where the request that leads can be once draining is over, so many being still held. -/
def Decides (c : Coordinator) (lost : Nat) : ShutdownCall → Prop
  | .counting => True
  | .recording forced => forced = lost
  | .ending => c.forced = lost
  | _ => False

theorem Decides.leads {c : Coordinator} {lost : Nat} {call : ShutdownCall} (h : call.Decides c lost) :
    call.leads = true := by
  cases call with
  | counting | recording forced | ending => rfl
  | _ => exact h.elim

/-- It has something to do; and it goes on deciding, or ends the shutdown with what it has counted. -/
theorem Decides.step {c : Coordinator} {lost : Nat} {call : ShutdownCall} (now : Nat) (h : call.Decides c lost)
    (hlive : c.live = lost) : ∃ next d, call.step now c = some (next, d) ∧
      (d.state = c.state ∧ next.Decides d lost ∨ d.state = .terminated ∧ d.forced = lost) := by
  cases call with
  | counting => exact ⟨_, _, rfl, .inl ⟨rfl, hlive⟩⟩
  | recording forced => exact ⟨_, _, rfl, .inl ⟨rfl, h⟩⟩
  | ending => exact ⟨_, _, rfl, .inr ⟨rfl, h⟩⟩
  | _ => exact h.elim

end ShutdownCall

/-- A request that decides does not wait any more. -/
theorem WaitingCall.step_of_decides {now wakes lost : Nat} {c : Coordinator} {call : WaitingCall}
    (h : call.view.Decides c lost) :
    call.step now wakes c = (call.view.step now c).map fun (next, d) => (.plain next, d) := by
  cases call with
  | plain call =>
    refine step_plain ?_
    cases call with
    | draining deadline => exact h.elim
    | _ => rfl
  | _ => exact h.elim

namespace TimedCall

def isDone (t : TimedCall) : Bool := t.call.view.report?.isSome

/-- The time a request has come to: that of its last step if it is done. -/
def clock (now : Nat) (t : TimedCall) : Nat := if t.isDone then t.last else now

theorem clock_of_not_done {now : Nat} {t : TimedCall} (h : t.isDone = false) : t.clock now = now := by
  simp [clock, h]

theorem clock_of_done {now : Nat} {t : TimedCall} (h : t.isDone = true) : t.clock now = t.last := by
  simp [clock, h]

theorem isDone_iff {t : TimedCall} : t.isDone = true ↔ ∃ report, t.call = .plain (.done report) := by
  obtain ⟨call, made, last⟩ := t
  constructor
  · intro hdone
    cases call with
    | plain call =>
      cases call with
      | done report => exact ⟨report, rfl⟩
      | _ => cases hdone
    | _ => cases hdone
  · rintro ⟨report, rfl⟩
    rfl

/-- Who is done has nothing to do. -/
theorem not_done_of_step {now wakes : Nat} {c d : Coordinator} {next : WaitingCall} {t : TimedCall}
    (h : t.call.step now wakes c = some (next, d)) : t.isDone = false := by
  rw [Bool.eq_false_iff, Ne, isDone_iff]
  rintro ⟨report, hreport⟩
  rw [hreport] at h
  cases h

/-- A request that takes a step has come to now. -/
theorem clock_moved (now : Nat) (t : TimedCall) (next : WaitingCall) :
    clock now { t with call := next, last := now } = now := by
  unfold clock
  split <;> rfl

end TimedCall

namespace Closedown

variable {u v w : Closedown} {e : ClosedownEvent} {events earlier later own : List ClosedownEvent}
  {begun grace i j k : Nat}

/-- How far the shutdown has come that a request began at some time: the request drains, and the time has not come when
that is over; or it decides, at that time; or the shutdown has ended, and every request is done at that time, or as soon
as it has been made. -/
inductive Underway (k begun grace : Nat) (w : Closedown) : Prop
  | draining (lead : TimedCall) (found : w.calls[k]? = some lead)
      (call : lead.call.view = .draining (begun + grace)) (state : w.coordinator.state = .draining (begun + grace))
      (early : w.now ≤ w.finish begun grace)
  | deciding (lead : TimedCall) (found : w.calls[k]? = some lead)
      (call : lead.call.view.Decides w.coordinator (w.lost begun grace))
      (state : w.coordinator.state = .draining (begun + grace)) (due : w.now = w.finish begun grace)
  | ended (state : w.coordinator.state = .terminated) (forced : w.coordinator.forced = w.lost begun grace)
      (late : w.finish begun grace ≤ w.now)
      (calls : ∀ t ∈ w.calls, t.clock w.now = max (w.finish begun grace) t.made)

/-- Guards and coordinator stay as they are, and other requests may be made. -/
theorem Underway.keep (h : w.Underway k begun grace) (new : List TimedCall) (hnow : v.now = w.now)
    (hcoordinator : v.coordinator = w.coordinator) (hdrops : v.drops = w.drops) (hcalls : v.calls = w.calls ++ new)
    (hnew : ∀ t ∈ new, t.isDone = false ∧ t.made = w.now) : v.Underway k begun grace := by
  have hfinish : v.finish begun grace = w.finish begun grace := by rw [finish, hdrops]; rfl
  have hlost : v.lost begun grace = w.lost begun grace := by rw [lost, hfinish, hdrops]; rfl
  have hfound : ∀ lead, w.calls[k]? = some lead → v.calls[k]? = some lead := by
    intro lead hlead
    rw [hcalls, List.getElem?_append_left (List.getElem?_eq_some_iff.1 hlead).1]
    exact hlead
  cases h with
  | draining lead found call state early =>
    refine .draining lead (hfound lead found) call (hcoordinator ▸ state) ?_
    rw [hnow, hfinish]
    exact early
  | deciding lead found call state due =>
    refine .deciding lead (hfound lead found) ?_ (hcoordinator ▸ state) ?_
    · rw [hcoordinator, hlost]
      exact call
    · rw [hnow, hfinish]
      exact due
  | ended state forced late calls =>
    refine .ended (hcoordinator ▸ state) ?_ ?_ ?_
    · rw [hcoordinator, hlost]
      exact forced
    · rw [hnow, hfinish]
      exact late
    · intro t ht
      rw [hcalls] at ht
      rw [hnow, hfinish]
      rcases List.mem_append.1 ht with ht | ht
      · exact calls t ht
      · obtain ⟨hdone, hmade⟩ := hnew t ht
        rw [TimedCall.clock_of_not_done hdone, hmade]
        exact (Nat.max_eq_right late).symm

/-- A guard that is not dropped at the deadline is dropped in time, or too late to change anything. -/
theorem Underway.drop (h : w.Underway k begun grace) (hstep : w.step (.drop i) = some v)
    (hne : w.now ≠ begun + grace) : v.Underway k begun grace := by
  obtain ⟨hheld, hdrops⟩ := drops_drop hstep
  obtain ⟨-, next, -, -, rfl⟩ := step_drop hstep
  -- as long as this guard was held the time was the deadline
  have hdeadline : w.finish begun grace = begun + grace := drainedAt_of_held (List.mem_of_getElem? hheld)
  cases h with
  | draining lead found call state early =>
    refine .draining lead found call state ?_
    rw [finish, hdrops]
    exact le_drainedAt_set (List.getElem?_eq_some_iff.1 hheld).1 (hdeadline ▸ early)
  | deciding lead found call state due => exact absurd (due.trans hdeadline) hne
  | ended state forced late calls =>
    have hlate : begun + grace < w.now := Nat.lt_of_le_of_ne (hdeadline ▸ late) (Ne.symm hne)
    have hfinish : finish begun grace { w with
        coordinator := w.coordinator.release, stays := w.stays.set i next } = w.finish begun grace := by
      rw [finish, hdrops]
      exact drainedAt_set_of_late hheld (Nat.le_of_lt hlate)
    refine .ended state ?_ ?_ ?_
    · rw [lost, hfinish, hdrops, hdeadline, heldAt_set_of_late hheld hlate, ← hdeadline]
      exact forced
    · rw [hfinish]
      exact late
    · rw [hfinish]
      exact calls

theorem not_done_of_draining (hw : w.Sound) {deadline : Nat} (hstate : w.coordinator.state = .draining deadline)
    {t : TimedCall} (ht : t ∈ w.calls) : t.isDone = false := by
  rw [Bool.eq_false_iff, Ne, TimedCall.isDone_iff]
  rintro ⟨report, hreport⟩
  have hended := (hw.replayed.done ht (by rw [hreport]; rfl)).1
  rw [hstate] at hended
  cases hended

/-- Where nothing can be done after the end every request is done. -/
theorem done_of_rests (hw : w.Sound) (hrests : w.rests = true) (hended : w.coordinator.state = .terminated)
    {t : TimedCall} (ht : t ∈ w.calls) : t.isDone = true := by
  have hidle := hw.replayed.idle_of_ended hended ht
  have hwaits := (rests_iff.1 hrests).2 t ht
  obtain ⟨call, made, last⟩ := t
  cases call with
  | plain call =>
    cases call with
    | done report => rfl
    | fresh grace | reporting =>
      simp [WaitingCall.step, ShutdownCall.step, hended, ShutdownState.isRunning] at hwaits
    | waiting => simp [WaitingCall.step, ShutdownCall.step, hended, ShutdownState.isTerminated] at hwaits
    | _ => cases hidle
  | _ => cases hidle

/-- Whoever decides has something to do. -/
theorem not_rests_of_decides {lead : TimedCall} (hlead : lead ∈ w.calls) {lost : Nat}
    (hdecides : lead.call.view.Decides w.coordinator lost) (hlive : w.coordinator.live = lost) : w.rests = false := by
  rw [Bool.eq_false_iff]
  intro hrests
  have hwaits := (rests_iff.1 hrests).2 lead hlead
  obtain ⟨next, d, hnext, -⟩ := hdecides.step w.now hlive
  rw [WaitingCall.step_of_decides hdecides, hnext] at hwaits
  cases hwaits

/-- While the request decides the counter tells how many are lost. -/
theorem live_eq_lost (hw : w.Sound) (hdue : w.now = w.finish begun grace) :
    w.coordinator.live = w.lost begun grace := by
  rw [lost, ← hdue]
  exact live_eq_heldAt hw

/-- When the request that drains finds that draining is over, it is. -/
theorem finish_le_of_isOver (hw : w.Sound) (hbegun : begun ≤ w.now)
    (hover : ShutdownCall.isOver w.now (begun + grace) w.coordinator = true) : w.finish begun grace ≤ w.now := by
  rcases (Bool.or_eq_true _ _).mp hover with hlive | hdeadline
  · exact drainedAt_le_of_dropped hbegun (dropped_of_not_live hw (beq_iff_eq.1 hlive))
  · exact Nat.le_trans drainedAt_le_deadline (of_decide_eq_true hdeadline)

/-- A step of the request that drains or decides. -/
theorem Underway.lead (h : w.Underway k begun grace) (hw : w.Sound) (hbegun : begun ≤ w.now)
    (hstep : w.step (.call k) = some v) (hgoes : w.coordinator.state ≠ .terminated) : v.Underway k begun grace := by
  obtain ⟨t, next, c, hk, hnext, rfl⟩ := step_call hstep
  have hset := List.getElem?_set_self (a := { t with call := next, last := w.now }) (List.getElem?_eq_some_iff.1 hk).1
  cases h with
  | draining lead found call state early =>
    obtain rfl : lead = t := Option.some.inj (found.symm.trans hk)
    rcases WaitingCall.view_step hnext with hview | ⟨-, hsame, rfl⟩
    · rw [call, ShutdownCall.step] at hview
      split at hview
      · next hover =>
        have hlate := finish_le_of_isOver hw hbegun hover
        obtain ⟨hcounts, rfl⟩ := Prod.mk.inj (Option.some.inj hview)
        refine .deciding _ hset ?_ state (Nat.le_antisymm early hlate)
        show next.view.Decides _ _
        rw [← hcounts]
        trivial
      · cases hview
    · exact .draining _ hset (hsame.trans call) state early
  | deciding lead found call state due =>
    obtain rfl : lead = t := Option.some.inj (found.symm.trans hk)
    obtain ⟨after, d, hafter, hgoesOn⟩ := call.step w.now (live_eq_lost hw due)
    rw [WaitingCall.step_of_decides call, hafter] at hnext
    cases hnext
    rcases hgoesOn with ⟨hstate, hdecides⟩ | ⟨hended, hforced⟩
    · exact .deciding _ hset hdecides (hstate.trans state) due
    · refine .ended hended hforced (Nat.le_of_eq due.symm) fun t ht => ?_
      -- nobody has been done before, and all requests have been made by now
      have hmade : t.made ≤ w.now ∧ t.clock w.now = w.now := by
        rcases List.mem_or_eq_of_mem_set ht with ht | rfl
        · exact ⟨(hw.calls t ht).made, TimedCall.clock_of_not_done (not_done_of_draining hw state ht)⟩
        · exact ⟨(hw.calls lead (List.mem_of_getElem? found)).made, TimedCall.clock_moved ..⟩
      show t.clock w.now = max (w.finish begun grace) t.made
      rw [hmade.2, ← due]
      exact (Nat.max_eq_left hmade.1).symm
  | ended state forced late calls => exact absurd state hgoes

/-- A step of any request. The others find the coordinator as the one that leads has left it. -/
theorem Underway.call (h : w.Underway k begun grace) (hw : w.Sound) (hbegun : begun ≤ w.now)
    (hstep : w.step (.call j) = some v) : v.Underway k begun grace := by
  by_cases hlead : j = k ∧ w.coordinator.state ≠ .terminated
  · obtain ⟨rfl, hgoes⟩ := hlead
    exact h.lead hw hbegun hstep hgoes
  · obtain ⟨t, next, c, hj, hnext, rfl⟩ := step_call hstep
    have hmem := List.mem_of_getElem? hj
    cases h with
    | draining lead found call state early =>
      have hne : j ≠ k := by
        rintro rfl
        exact hlead ⟨rfl, by rw [state]; nofun⟩
      have hidle := hw.replayed.idle found (by rw [call]; rfl) hj hne.symm
      obtain rfl := WaitingCall.coordinator_of_idle hnext hidle (by rw [state]; rfl)
      exact .draining lead ((List.getElem?_set_ne hne).trans found) call state early
    | deciding lead found call state due =>
      have hne : j ≠ k := by
        rintro rfl
        exact hlead ⟨rfl, by rw [state]; nofun⟩
      have hidle := hw.replayed.idle found call.leads hj hne.symm
      obtain rfl := WaitingCall.coordinator_of_idle hnext hidle (by rw [state]; rfl)
      exact .deciding lead ((List.getElem?_set_ne hne).trans found) call state due
    | ended state forced late calls =>
      have hidle := hw.replayed.idle_of_ended state hmem
      obtain rfl := WaitingCall.coordinator_of_idle hnext hidle (by rw [state]; rfl)
      refine .ended state forced late fun t' ht' => ?_
      rcases List.mem_or_eq_of_mem_set ht' with ht' | rfl
      · exact calls t' ht'
      · have hclock := calls t hmem
        rw [TimedCall.clock_of_not_done (TimedCall.not_done_of_step hnext)] at hclock
        exact (TimedCall.clock_moved ..).trans hclock

/-- Time passes only while draining goes on, and after everybody is done. -/
theorem Underway.tick (h : w.Underway k begun grace) (hw : w.Sound) (hstep : w.step .tick = some v) :
    v.Underway k begun grace := by
  obtain ⟨hrests, rfl⟩ := step_tick hstep
  cases h with
  | draining lead found call state early =>
    -- no wake-up has been missed, so somebody is live and the deadline is what is waited for
    obtain ⟨hearly, hlive⟩ := hw.asleep hrests (List.mem_of_getElem? found) call
    refine .draining lead found call state ?_
    show w.now + 1 ≤ w.finish begun grace
    rw [finish, drainedAt_of_held (mem_drops_of_live hw hlive)]
    exact hearly
  | deciding lead found call state due =>
    rw [not_rests_of_decides (List.mem_of_getElem? found) call (live_eq_lost hw due)] at hrests
    cases hrests
  | ended state forced late calls =>
    refine .ended state forced (Nat.le_succ_of_le late) fun t ht => ?_
    have hdone := done_of_rests hw hrests state ht
    have hclock := calls t ht
    rw [TimedCall.clock_of_done hdone] at hclock ⊢
    exact hclock

theorem Underway.step (h : w.Underway k begun grace) (hw : w.Sound) (hbegun : begun ≤ w.now)
    (hstep : w.step e = some v) (huntied : ∀ i, e = .drop i → w.now ≠ begun + grace) :
    v.Underway k begun grace := by
  have hruns : w.coordinator.state.isRunning = false := by
    cases h with
    | draining lead found call state early => rw [state]; rfl
    | deciding lead found call state due => rw [state]; rfl
    | ended state forced late calls => rw [state]; rfl
  cases e with
  | register =>
    have hdrops := drops_step hstep hruns nofun
    obtain rfl := step_register hstep
    refine h.keep [] rfl ?_ hdrops (List.append_nil _).symm nofun
    show w.coordinator.register.2 = w.coordinator
    rw [Coordinator.register_eq, if_neg (Bool.eq_false_iff.1 hruns)]
  | drop i => exact h.drop hstep (huntied i rfl)
  | rouse i =>
    have hdrops := drops_rouse hstep
    obtain ⟨time, -, rfl⟩ := step_rouse hstep
    exact h.keep [] rfl rfl hdrops (List.append_nil _).symm nofun
  | shutDown later =>
    cases hstep
    refine h.keep _ rfl rfl rfl rfl fun t ht => ?_
    obtain rfl := List.mem_singleton.1 ht
    exact ⟨rfl, rfl⟩
  | call j => exact h.call hw hbegun hstep
  | tick => exact h.tick hw hstep

/-! ## Main results -/

/-- What holds at any time after the first request has found the coordinator running. -/
structure Since (k begun grace : Nat) (u w : Closedown) : Prop where
  sound : w.Sound
  stopped : w.coordinator.state.isRunning = false
  keeps : u.Keeps w
  underway : u.Untied (begun + grace) w → w.Underway k begun grace

theorem Since.step (h : Since k begun grace u w) (hbegun : begun ≤ u.now) (hstep : w.step e = some v) :
    Since k begun grace u v := by
  have hkeeps := keeps_step hstep h.stopped
  refine ⟨h.sound.step hstep, begun_step hstep h.stopped, h.keeps.trans hkeeps, fun huntied => ?_⟩
  refine (h.underway (huntied.of_keeps hkeeps)).step h.sound (Nat.le_trans hbegun h.keeps.now) hstep ?_
  rintro i rfl
  exact huntied.now_ne h.keeps hstep

theorem Since.replay (h : Since k begun grace u w) (hbegun : begun ≤ u.now) (hreplay : w.replay events = some v) :
    Since k begun grace u v :=
  replay_keeps (fun _ _ _ hw hstep => hw.step hbegun hstep) h hreplay

/-- The first step of the first request. -/
theorem since_first (hu : u.Sound) {first : TimedCall} (hk : u.calls[k]? = some first)
    (hfirst : first.call = .plain (.fresh grace)) (hruns : u.coordinator.state = .running)
    (hstep : u.step (.call k) = some v) : Since k u.now grace u v := by
  have hsound := hu.step hstep
  have hkeeps := keeps_call hstep
  obtain ⟨t, next, c, hk', hnext, rfl⟩ := step_call hstep
  obtain rfl : first = t := Option.some.inj (hk.symm.trans hk')
  rw [hfirst, WaitingCall.step_plain rfl, ShutdownCall.step, hruns] at hnext
  cases hnext
  refine ⟨hsound, rfl, hkeeps, fun _ => ?_⟩
  have hlt := (List.getElem?_eq_some_iff.1 hk).1
  exact .draining _ (List.getElem?_set_self hlt) rfl rfl (begun_le_drainedAt (Nat.le_add_right _ _))

/-- Where nothing can be done the requests are done if draining is over, and else none is. -/
theorem Underway.done_iff (h : w.Underway k begun grace) (hw : w.Sound) (hrests : w.rests = true) {t : TimedCall}
    (ht : t ∈ w.calls) : t.isDone = true ↔ w.finish begun grace ≤ w.now := by
  cases h with
  | draining lead found call state early =>
    obtain ⟨hearly, hlive⟩ := hw.asleep hrests (List.mem_of_getElem? found) call
    rw [finish, drainedAt_of_held (mem_drops_of_live hw hlive), not_done_of_draining hw state ht]
    constructor
    · nofun
    · intro hle
      omega
  | deciding lead found call state due =>
    rw [not_rests_of_decides (List.mem_of_getElem? found) call (live_eq_lost hw due)] at hrests
    cases hrests
  | ended state forced late calls => exact iff_of_true (done_of_rests hw hrests state ht) late

/-- A request that is done has ended when draining was over, or when it was made if that was later; and it tells how many
were lost. -/
theorem Underway.done (h : w.Underway k begun grace) (hw : w.Sound) {t : TimedCall} (ht : t ∈ w.calls)
    {report : ShutdownReport} (hdone : t.call = .plain (.done report)) :
    report.forced = w.lost begun grace ∧ t.last = max (w.finish begun grace) t.made := by
  obtain ⟨hended, rfl⟩ := hw.replayed.done ht (by rw [hdone]; rfl)
  cases h with
  | draining lead found call state early => rw [state] at hended; cases hended
  | deciding lead found call state due => rw [state] at hended; cases hended
  | ended state forced late calls =>
    have hclock := calls t ht
    rw [TimedCall.clock_of_done (TimedCall.isDone_iff.2 ⟨_, hdone⟩)] at hclock
    exact ⟨forced, hclock⟩

/-- What can be done without anybody else takes no time and drops no guard. -/
theorem replay_own (hown : ∀ e ∈ own, e.isOwn = true) (h : w.replay own = some v) :
    v.now = w.now ∧ v.drops = w.drops := by
  induction own generalizing w with
  | nil =>
    cases h
    exact ⟨rfl, rfl⟩
  | cons e rest ih =>
    obtain ⟨u, hu, hrest⟩ := Option.bind_eq_some_iff.1 h
    have hstep : u.now = w.now ∧ u.drops = w.drops := by
      cases e with
      | rouse i =>
        have hdrops := drops_rouse hu
        obtain ⟨time, -, rfl⟩ := step_rouse hu
        exact ⟨rfl, hdrops⟩
      | call k =>
        obtain ⟨t, next, c, -, -, rfl⟩ := step_call hu
        exact ⟨rfl, rfl⟩
      | _ => cases hown _ (List.mem_cons_self ..)
    obtain ⟨hnow, hdrops⟩ := ih (fun e he => hown e (List.mem_cons_of_mem _ he)) hrest
    exact ⟨hnow.trans hstep.1, hdrops.trans hstep.2⟩

/-- A request drains for a guard that is dropped in time and one that is not; another request is made meanwhile, and a
third one when all is over. -/
def overdue : List ClosedownEvent :=
  [.call 0, .call 0, .call 0, .shutDown 100, .call 1, .tick, .drop 0, .tick, .call 0, .call 0, .call 0, .call 0, .call 0,
    .call 1, .call 1, .tick, .drop 1, .shutDown 5, .rouse 1, .call 2, .call 2, .call 2]

end Closedown

end Hypertext
