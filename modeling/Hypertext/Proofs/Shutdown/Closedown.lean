/-
The end of a server in time. Guards are dropped and shutdowns are requested at any times; the requests and the wake-ups
take their single steps in any order, and a clock goes on only while there is nothing to do, so that whatever can be done
is done at the moment at which it can be done. A call to register takes all its steps at once.

Without the times and the wake-ups this is a replay of overlapping calls, so what holds of all of these holds here. On top
of that no request that is asleep has missed a wake-up; and at any moment there is only so much to do.
-/
import Hypertext.Proofs.Shutdown.Registry
import Hypertext.Shutdown.DrainWait

namespace Hypertext

/-! ## Requests -/

namespace ShutdownCall

variable {now : Nat} {c d : Coordinator} {call next : ShutdownCall}

/-- A step of a request leaves the counter as it is. -/
theorem live_step (h : call.step now c = some (next, d)) : d.live = c.live := by
  cases call with
  | fresh grace =>
    simp only [step] at h
    split at h <;> cases h <;> rfl
  | draining deadline | waiting =>
    simp only [step] at h
    split at h
    · cases h; rfl
    · cases h
  | done report => cases h
  | _ => cases h; rfl

/-- A shutdown that has begun goes on. -/
theorem begun_step (h : call.step now c = some (next, d)) (hbegun : c.state.isRunning = false) :
    d.state.isRunning = false := by
  cases call with
  | fresh grace =>
    rw [step_of_idle h rfl hbegun]
    exact hbegun
  | draining deadline | waiting =>
    simp only [step] at h
    split at h
    · cases h; exact hbegun
    · cases h
  | ending => cases h; rfl
  | done report => cases h
  | _ => cases h; exact hbegun

/-- A request that has taken a step is not a fresh one: it has fewer steps left. -/
theorem step_ne_fresh (h : call.step now c = some (next, d)) (grace : Nat) : next ≠ .fresh grace := by
  rintro rfl
  have hlt : 6 < call.stepsLeft := stepsLeft_lt h
  have hle : call.stepsLeft ≤ 6 := by
    cases call <;> simp [stepsLeft]
  omega

end ShutdownCall

namespace WaitingCall

/-- A request that has armed itself has noted no wake-up that there was not. If it is asleep and no other one has been
given, there is something to wait for. -/
def Heeds (wakes : Nat) (awaited : Prop) : WaitingCall → Prop
  | .plain _ => True
  | .armed _ seen => seen ≤ wakes
  | .asleep _ seen => seen ≤ wakes ∧ (seen = wakes → awaited)

variable {now wakes : Nat} {c d : Coordinator} {call next : WaitingCall} {p q : Prop}

theorem Heeds.mono (h : call.Heeds wakes p) (hpq : p → q) : call.Heeds wakes q := by
  cases call with
  | plain call => trivial
  | armed deadline seen => exact h
  | asleep deadline seen => exact ⟨h.1, fun hseen => hpq (h.2 hseen)⟩

/-- Whoever is armed is woken. -/
theorem Heeds.wake (h : call.Heeds wakes p) : call.Heeds (wakes + 1) q := by
  cases call with
  | plain call => trivial
  | armed deadline seen => exact Nat.le_succ_of_le h
  | asleep deadline seen =>
    refine ⟨Nat.le_succ_of_le h.1, fun hseen => ?_⟩
    have hle := h.1
    omega

/-- A request falls asleep only while somebody is live. -/
theorem Heeds.step (h : call.Heeds wakes p) (hstep : call.step now wakes c = some (next, d)) (hp : 0 < c.live → p) :
    next.Heeds wakes p := by
  cases moves_of_step hstep with
  | arm => exact Nat.le_refl wakes
  | sleep hlive => exact ⟨h, fun _ => hp hlive⟩
  | plain | find | wake | expire => trivial

/-- A step of a request leaves the counter as it is. -/
theorem live_step (h : call.step now wakes c = some (next, d)) : d.live = c.live := by
  rcases view_step h with hview | ⟨-, -, rfl⟩
  · exact ShutdownCall.live_step hview
  · rfl

/-- Only the request that leads changes the coordinator once the shutdown has begun. -/
theorem coordinator_of_idle (h : call.step now wakes c = some (next, d)) (hidle : call.view.leads = false)
    (hbegun : c.state.isRunning = false) : d = c := by
  rcases view_step h with hview | ⟨-, -, rfl⟩
  · exact ShutdownCall.step_of_idle hview hidle hbegun
  · rfl

theorem begun_step (h : call.step now wakes c = some (next, d)) (hbegun : c.state.isRunning = false) :
    d.state.isRunning = false := by
  rcases view_step h with hview | ⟨-, -, rfl⟩
  · exact ShutdownCall.begun_step hview hbegun
  · exact hbegun

/-- A request that has taken a step is not a fresh one. -/
theorem step_ne_fresh (h : call.step now wakes c = some (next, d)) (grace : Nat) : next.view ≠ .fresh grace := by
  rcases view_step h with hview | ⟨hdrains, hsame, -⟩
  · exact ShutdownCall.step_ne_fresh hview grace
  · rw [hsame]
    intro hfresh
    rw [hfresh] at hdrains
    cases hdrains

/-- A fresh request has something to do. -/
theorem view_ne_fresh_of_step (h : call.step now wakes c = none) (grace : Nat) : call.view ≠ .fresh grace := by
  cases call with
  | plain call =>
    rintro rfl
    rw [step_plain rfl, Option.map_eq_none_iff, ShutdownCall.step] at h
    split at h <;> cases h
  | _ =>
    intro hfresh
    cases hfresh

end WaitingCall

/-! ## Events -/

/-- A request with the time at which it was made and the time of its last step. -/
structure TimedCall where
  call : WaitingCall
  made : Nat
  last : Nat
  deriving DecidableEq, Repr

/-- What happens next: a connection is registered, a guard is dropped or has those who wait woken, a shutdown is
requested, a request goes on, or time passes. -/
inductive ClosedownEvent
  | register
  | drop (i : Nat)
  | rouse (i : Nat)
  | shutDown (grace : Nat)
  | call (k : Nat)
  | tick
  deriving DecidableEq, Repr

/-- Whether nobody else has to do anything for the event to happen. -/
def ClosedownEvent.isOwn : ClosedownEvent → Bool
  | .rouse _ | .call _ => true
  | _ => false

/-- A coordinator at some time, with the number of wake-ups so far, the stays of connections by the order of registering,
and the requests to shut down. -/
structure Closedown where
  now : Nat
  coordinator : Coordinator
  wakes : Nat
  stays : List Stay
  calls : List TimedCall
  deriving DecidableEq, Repr

namespace Closedown

def start : Closedown := ⟨0, .start, 0, [], []⟩

/-- Whether nothing can be done at this time. -/
def rests (w : Closedown) : Bool :=
  w.stays.all (fun stay => stay.rouse.isNone) &&
    w.calls.all fun t => (t.call.step w.now w.wakes w.coordinator).isNone

/-- What follows an event; none if it cannot happen. -/
def step (w : Closedown) : ClosedownEvent → Option Closedown
  | .register =>
    let (id, coordinator) := w.coordinator.register
    some { w with
      coordinator
      wakes := w.wakes + w.coordinator.rouses.toNat
      stays := w.stays ++ id.toList.map fun _ => .held }
  | .drop i =>
    w.stays[i]?.bind fun stay => (stay.drop w.now w.coordinator).map fun (next, coordinator) =>
      { w with coordinator, stays := w.stays.set i next }
  | .rouse i =>
    w.stays[i]?.bind fun stay => stay.rouse.map fun next =>
      { w with wakes := w.wakes + 1, stays := w.stays.set i next }
  | .shutDown grace => some { w with calls := w.calls ++ [⟨.plain (.fresh grace), w.now, w.now⟩] }
  | .call k =>
    w.calls[k]?.bind fun t => (t.call.step w.now w.wakes w.coordinator).map fun (next, coordinator) =>
      { w with coordinator, calls := w.calls.set k { t with call := next, last := w.now } }
  | .tick => if w.rests then some { w with now := w.now + 1 } else none

/-- Events one after another; none if one of them cannot happen. -/
def replay : List ClosedownEvent → Closedown → Option Closedown
  | [], w => some w
  | e :: rest, w => (w.step e).bind (replay rest)

variable {u v w : Closedown} {e : ClosedownEvent} {events : List ClosedownEvent} {i k : Nat}

/-- What each event keeps all of them keep. -/
theorem replay_keeps {P : Closedown → Prop} (hstep : ∀ e w v, P w → w.step e = some v → P v) :
    ∀ {events : List ClosedownEvent} {w v : Closedown}, P w → w.replay events = some v → P v
  | [], w, v, hw, h => by
    cases h
    exact hw
  | e :: rest, w, v, hw, h => by
    obtain ⟨u, hu, hrest⟩ := Option.bind_eq_some_iff.1 h
    exact replay_keeps hstep (hstep e w u hw hu) hrest

/-! ## What an event changes -/

theorem step_register (h : w.step .register = some v) :
    v = { w with
      coordinator := w.coordinator.register.2
      wakes := w.wakes + w.coordinator.rouses.toNat
      stays := w.stays ++ w.coordinator.register.1.toList.map fun _ => .held } :=
  (Option.some.inj h).symm

/-- A guard that is dropped was held. If it was the last one those who wait are to be woken. -/
theorem step_drop (h : w.step (.drop i) = some v) :
    w.stays[i]? = some .held ∧ ∃ next : Stay, next.dropped = some w.now ∧
      next.isRousing = decide (w.coordinator.live = 1) ∧
      v = { w with coordinator := w.coordinator.release, stays := w.stays.set i next } := by
  obtain ⟨stay, hstay, h⟩ := Option.bind_eq_some_iff.1 h
  obtain ⟨⟨next, c⟩, hnext, rfl⟩ := Option.map_eq_some_iff.1 h
  cases stay with
  | held =>
    cases hnext
    refine ⟨hstay, _, ?_, ?_, rfl⟩
    · split <;> rfl
    · split
      · next hlast => exact (decide_eq_true hlast).symm
      · next hlast => exact (decide_eq_false hlast).symm
  | _ => cases hnext

theorem step_rouse (h : w.step (.rouse i) = some v) :
    ∃ time, w.stays[i]? = some (.rousing time) ∧
      v = { w with wakes := w.wakes + 1, stays := w.stays.set i (.gone time) } := by
  obtain ⟨stay, hstay, h⟩ := Option.bind_eq_some_iff.1 h
  obtain ⟨next, hnext, rfl⟩ := Option.map_eq_some_iff.1 h
  cases stay with
  | rousing time =>
    cases hnext
    exact ⟨time, hstay, rfl⟩
  | _ => cases hnext

theorem step_call (h : w.step (.call k) = some v) :
    ∃ t next c, w.calls[k]? = some t ∧ t.call.step w.now w.wakes w.coordinator = some (next, c) ∧
      v = { w with coordinator := c, calls := w.calls.set k { t with call := next, last := w.now } } := by
  obtain ⟨t, ht, h⟩ := Option.bind_eq_some_iff.1 h
  obtain ⟨⟨next, c⟩, hnext, rfl⟩ := Option.map_eq_some_iff.1 h
  exact ⟨t, next, c, ht, hnext, rfl⟩

theorem step_tick (h : w.step .tick = some v) : w.rests = true ∧ v = { w with now := w.now + 1 } := by
  simp only [step] at h
  split at h
  · next hrests => exact ⟨hrests, (Option.some.inj h).symm⟩
  · cases h

theorem rests_iff : w.rests = true ↔
    (∀ stay ∈ w.stays, stay.rouse = none) ∧
      ∀ t ∈ w.calls, t.call.step w.now w.wakes w.coordinator = none := by
  simp only [rests, Bool.and_eq_true, List.all_eq_true, Option.isNone_iff_eq_none]

/-! ## Overlapping calls -/

/-- Calls that overlap come to the same, apart from the times and the wake-ups. -/
structure Follows (w : Closedown) (t : Traffic) : Prop where
  now : t.now = w.now
  coordinator : t.coordinator = w.coordinator
  calls : t.calls = w.calls.map fun t => t.call.view
  guards : t.guards = w.stays.countP Stay.isHeld
  idle : t.pending = 0

/-- The closedown is as overlapping calls can leave it. -/
def Replayed (w : Closedown) : Prop := ∃ t, t.Reached ∧ w.Follows t

theorem replayed_start : start.Replayed := ⟨_, Traffic.reached_start, rfl, rfl, rfl, rfl, rfl⟩

theorem Replayed.register (h : w.Replayed) (hstep : w.step .register = some v) : v.Replayed := by
  obtain ⟨t, ht, hnow, hcoordinator, hcalls, hguards, hidle⟩ := h
  obtain rfl := step_register hstep
  refine ⟨_, ht.register, hnow, congrArg (·.register.2) hcoordinator, hcalls, ?_, ?_⟩
  · show t.guards + _ = (w.stays ++ _).countP Stay.isHeld
    rw [List.countP_append, hguards, hcoordinator]
    cases w.coordinator.register.1 <;> rfl
  · show (t.entries ++ _).countP _ = 0
    rw [List.countP_append]
    exact hidle

theorem Replayed.drop (h : w.Replayed) (hstep : w.step (.drop i) = some v) : v.Replayed := by
  obtain ⟨t, ht, hnow, hcoordinator, hcalls, hguards, hidle⟩ := h
  obtain ⟨hheld, next, hdropped, -, rfl⟩ := step_drop hstep
  obtain ⟨before, after, hsplit, hset⟩ := split_of_getElem? hheld
  have hnext : next.isHeld = false := by
    cases next with
    | held => cases hdropped
    | _ => rfl
  rw [hsplit, countP_middle] at hguards
  have hpos : 0 < t.guards := by
    rw [hguards]
    exact Nat.succ_pos _
  refine ⟨{ t with coordinator := t.coordinator.release, guards := t.guards - 1 }, ht.step (e := .drop) ?_, hnow,
    congrArg (·.release) hcoordinator, hcalls, ?_, hidle⟩
  · rw [Traffic.step, if_pos hpos]
  · show t.guards - 1 = (w.stays.set i next).countP Stay.isHeld
    rw [hset, countP_middle, hguards, hnext]
    rfl

/-- A wake-up leaves the guards as they are. -/
theorem Replayed.rouse (h : w.Replayed) (hstep : w.step (.rouse i) = some v) : v.Replayed := by
  obtain ⟨t, ht, hnow, hcoordinator, hcalls, hguards, hidle⟩ := h
  obtain ⟨time, hstay, rfl⟩ := step_rouse hstep
  obtain ⟨before, after, hsplit, hset⟩ := split_of_getElem? hstay
  refine ⟨t, ht, hnow, hcoordinator, hcalls, ?_, hidle⟩
  rw [hguards, hset, hsplit, countP_middle, countP_middle]
  rfl

theorem Replayed.call (h : w.Replayed) (hstep : w.step (.call k) = some v) : v.Replayed := by
  obtain ⟨t, ht, hnow, hcoordinator, hcalls, hguards, hidle⟩ := h
  obtain ⟨before, next, c, hk, hnext, rfl⟩ := step_call hstep
  have hview : t.calls[k]? = some before.call.view := by rw [hcalls, List.getElem?_map, hk, Option.map_some]
  rcases WaitingCall.view_step hnext with hseen | ⟨-, hsame, rfl⟩
  · refine ⟨{ t with coordinator := c, calls := t.calls.set k next.view }, ht.step (e := .call k) ?_, hnow, rfl, ?_,
      hguards, hidle⟩
    · rw [Traffic.step, hview, Option.bind_some, hnow, hcoordinator, hseen, Option.map_some]
    · show t.calls.set k next.view = (w.calls.set k _).map _
      rw [List.map_set, hcalls]
  · obtain ⟨first, rest, hsplit, hset⟩ := split_of_getElem? hview
    refine ⟨t, ht, hnow, hcoordinator, ?_, hguards, hidle⟩
    show t.calls = (w.calls.set k _).map _
    rw [List.map_set, ← hcalls, hsame, hset, ← hsplit]

theorem Replayed.step (h : w.Replayed) (hstep : w.step e = some v) : v.Replayed := by
  cases e with
  | register => exact h.register hstep
  | drop i => exact h.drop hstep
  | rouse i => exact h.rouse hstep
  | call k => exact h.call hstep
  | shutDown grace =>
    obtain ⟨t, ht, hnow, hcoordinator, hcalls, hguards, hidle⟩ := h
    cases hstep
    refine ⟨{ t with calls := t.calls ++ [.fresh grace] }, ht.step (e := .shutDown grace) rfl, hnow, hcoordinator, ?_,
      hguards, hidle⟩
    rw [List.map_append, ← hcalls]
    rfl
  | tick =>
    obtain ⟨t, ht, hnow, hcoordinator, hcalls, hguards, hidle⟩ := h
    obtain ⟨-, rfl⟩ := step_tick hstep
    refine ⟨{ t with now := t.now + 1 }, ht.step (e := .pass 1) rfl, ?_, hcoordinator, hcalls, hguards, hidle⟩
    exact congrArg (· + 1) hnow

/-- The counter is the number of guards that are held. -/
theorem Replayed.live_eq (h : w.Replayed) : w.coordinator.live = w.stays.countP Stay.isHeld := by
  obtain ⟨t, ht, -, hcoordinator, -, hguards, hidle⟩ := h
  rw [← hcoordinator, ht.sound.count, hidle, hguards, Nat.add_zero]

/-- Only one request leads. -/
theorem Replayed.idle (h : w.Replayed) {lead other : TimedCall} {j : Nat} (hk : w.calls[k]? = some lead)
    (hlead : lead.call.view.leads = true) (hj : w.calls[j]? = some other) (hne : k ≠ j) :
    other.call.view.leads = false := by
  obtain ⟨t, ht, -, -, hcalls, -, -⟩ := h
  have hview : t.calls[k]? = some lead.call.view := by rw [hcalls, List.getElem?_map, hk, Option.map_some]
  obtain ⟨before, after, hsplit, hset⟩ := split_of_getElem? hview
  obtain ⟨-, hothers⟩ := ht.sound.others hsplit (.inl hlead)
  -- the other request is still there when something that does not lead stands in the place of the one that does
  have hmem : other.call.view ∈ t.calls.set k .waiting := by
    refine List.mem_of_getElem? (i := j) ?_
    rw [List.getElem?_set_ne hne, hcalls, List.getElem?_map, hj, Option.map_some]
  rw [hset, List.mem_append, List.mem_cons] at hmem
  rcases hmem with hmem | hmem | hmem
  · exact hothers _ (List.mem_append_left _ hmem)
  · rw [hmem]
    rfl
  · exact hothers _ (List.mem_append_right _ hmem)

/-- No request leads once the shutdown has ended. -/
theorem Replayed.idle_of_ended (h : w.Replayed) (hended : w.coordinator.state = .terminated) {t : TimedCall}
    (ht : t ∈ w.calls) : t.call.view.leads = false := by
  obtain ⟨traffic, htraffic, -, hcoordinator, hcalls, -, -⟩ := h
  have hleader := htraffic.sound.leader
  rw [hcoordinator, hended, hcalls] at hleader
  exact Bool.eq_false_iff.2 (List.countP_eq_zero.1 hleader _ (List.mem_map_of_mem ht))

/-- Who is done has seen the end. -/
theorem Replayed.done (h : w.Replayed) {t : TimedCall} (ht : t ∈ w.calls) {report : ShutdownReport}
    (hdone : t.call.view = .done report) :
    w.coordinator.state = .terminated ∧ report = w.coordinator.report := by
  obtain ⟨traffic, htraffic, -, hcoordinator, hcalls, -, -⟩ := h
  have hmem : .done report ∈ traffic.calls := by
    rw [hcalls, ← hdone]
    exact List.mem_map_of_mem ht
  obtain ⟨hended, hreport⟩ := htraffic.sound.calls _ hmem
  rw [hcoordinator] at hended hreport
  exact ⟨ShutdownState.isTerminated_iff.1 hended, hreport⟩

/-! ## What holds at every time -/

/-- Whether there is something to wait for: somebody is live, or a wake-up is still to be given. -/
def Awaited (w : Closedown) : Prop := 0 < w.coordinator.live ∨ ∃ stay ∈ w.stays, stay.isRousing = true

/-- A request has not been made later than now, and takes its first step at once; and it misses no wake-up. -/
structure Timely (w : Closedown) (t : TimedCall) : Prop where
  made : t.made ≤ w.now
  fresh : ∀ grace, t.call.view = .fresh grace → t.made = w.now
  heeds : t.call.Heeds w.wakes w.Awaited

structure Sound (w : Closedown) : Prop where
  replayed : w.Replayed
  dropped : ∀ stay ∈ w.stays, ∀ time, stay.dropped = some time → time ≤ w.now
  calls : ∀ t ∈ w.calls, w.Timely t

theorem sound_start : start.Sound := ⟨replayed_start, by rintro stay ⟨⟩, by rintro t ⟨⟩⟩

/-- An event that leaves the requests as they are, and no one asleep for nothing. -/
theorem Sound.keep (h : w.Sound) (hstep : w.step e = some v) (hnow : v.now = w.now) (hcalls : v.calls = w.calls)
    (hdropped : ∀ stay ∈ v.stays, ∀ time, stay.dropped = some time → time ≤ w.now)
    (hheeds : ∀ t ∈ w.calls, t.call.Heeds v.wakes v.Awaited) : v.Sound := by
  refine ⟨h.replayed.step hstep, hnow ▸ hdropped, fun t ht => ?_⟩
  rw [hcalls] at ht
  exact ⟨hnow ▸ (h.calls t ht).made, hnow ▸ (h.calls t ht).fresh, hheeds t ht⟩

/-- A refused call to register wakes those who wait, or somebody else is live. -/
theorem Sound.register (h : w.Sound) (hstep : w.step .register = some v) : v.Sound := by
  refine h.keep hstep ?_ ?_ ?_ ?_
  all_goals obtain rfl := step_register hstep
  · rfl
  · rfl
  · intro stay hstay time htime
    rcases List.mem_append.1 hstay with hstay | hstay
    · exact h.dropped stay hstay time htime
    · obtain ⟨id, -, rfl⟩ := List.mem_map.1 hstay
      cases htime
  · intro t ht
    have hheeds := (h.calls t ht).heeds
    show t.call.Heeds (w.wakes + w.coordinator.rouses.toNat) _
    cases hrouses : w.coordinator.rouses with
    | true => exact hheeds.wake
    | false =>
      refine hheeds.mono ?_
      rintro (hlive | ⟨stay, hstay, hrousing⟩)
      · left
        show 0 < w.coordinator.register.2.live
        rw [Coordinator.register_eq]
        split
        · exact Nat.succ_pos _
        · exact hlive
      · exact .inr ⟨stay, List.mem_append_left _ hstay, hrousing⟩

/-- When a guard is dropped somebody else is live, or those who wait are to be woken. -/
theorem Sound.drop (h : w.Sound) (hstep : w.step (.drop i) = some v) : v.Sound := by
  obtain ⟨hheld, next, hdropped, hrousing, rfl⟩ := step_drop hstep
  have hlive : 0 < w.coordinator.live := by
    rw [h.replayed.live_eq]
    exact List.countP_pos_iff.2 ⟨_, List.mem_of_getElem? hheld, rfl⟩
  have hnext : next ∈ w.stays.set i next := List.mem_set (List.getElem?_eq_some_iff.1 hheld).1 next
  refine h.keep hstep rfl rfl ?_ ?_
  · intro stay hstay time htime
    rcases List.mem_or_eq_of_mem_set hstay with hstay | rfl
    · exact h.dropped stay hstay time htime
    · rw [hdropped] at htime
      exact Nat.le_of_eq (Option.some.inj htime).symm
  · intro t ht
    refine (h.calls t ht).heeds.mono fun _ => ?_
    by_cases hlast : w.coordinator.live = 1
    · right
      rw [decide_eq_true hlast] at hrousing
      exact ⟨next, hnext, hrousing⟩
    · left
      show 0 < w.coordinator.live - 1
      omega

theorem Sound.rouse (h : w.Sound) (hstep : w.step (.rouse i) = some v) : v.Sound := by
  obtain ⟨since, hstay, rfl⟩ := step_rouse hstep
  refine h.keep hstep rfl rfl ?_ fun t ht => (h.calls t ht).heeds.wake
  intro stay hmem time htime
  rcases List.mem_or_eq_of_mem_set hmem with hmem | rfl
  · exact h.dropped stay hmem time htime
  · exact h.dropped _ (List.mem_of_getElem? hstay) time htime

theorem Sound.call (h : w.Sound) (hstep : w.step (.call k) = some v) : v.Sound := by
  have hreplayed := h.replayed.step hstep
  obtain ⟨before, next, c, hk, hnext, rfl⟩ := step_call hstep
  have hbefore := h.calls before (List.mem_of_getElem? hk)
  have hawaited : w.Awaited → { w with
      coordinator := c, calls := w.calls.set k { before with call := next, last := w.now } }.Awaited := by
    rw [Awaited, Awaited, WaitingCall.live_step hnext]
    exact id
  refine ⟨hreplayed, h.dropped, fun t ht => ?_⟩
  rcases List.mem_or_eq_of_mem_set ht with ht | rfl
  · exact ⟨(h.calls t ht).made, (h.calls t ht).fresh, (h.calls t ht).heeds.mono hawaited⟩
  · refine ⟨hbefore.made, fun grace hfresh => ?_, ?_⟩
    · exact absurd hfresh (WaitingCall.step_ne_fresh hnext grace)
    · exact (hbefore.heeds.step hnext .inl).mono hawaited

theorem Sound.tick (h : w.Sound) (hstep : w.step .tick = some v) : v.Sound := by
  have hreplayed := h.replayed.step hstep
  obtain ⟨hrests, rfl⟩ := step_tick hstep
  refine ⟨hreplayed, fun stay hstay time htime => Nat.le_succ_of_le (h.dropped stay hstay time htime), fun t ht => ?_⟩
  refine ⟨Nat.le_succ_of_le (h.calls t ht).made, fun grace hfresh => ?_, (h.calls t ht).heeds⟩
  -- a fresh request would have had something to do
  exact absurd hfresh (WaitingCall.view_ne_fresh_of_step ((rests_iff.1 hrests).2 t ht) grace)

theorem Sound.step (h : w.Sound) (hstep : w.step e = some v) : v.Sound := by
  cases e with
  | register => exact h.register hstep
  | drop i => exact h.drop hstep
  | rouse i => exact h.rouse hstep
  | call k => exact h.call hstep
  | tick => exact h.tick hstep
  | shutDown grace =>
    have hreplayed := h.replayed.step hstep
    cases hstep
    refine ⟨hreplayed, h.dropped, fun t ht => ?_⟩
    rcases List.mem_append.1 ht with ht | ht
    · exact ⟨(h.calls t ht).made, (h.calls t ht).fresh, (h.calls t ht).heeds⟩
    · obtain rfl := List.mem_singleton.1 ht
      exact ⟨Nat.le_refl _, fun _ _ => rfl, trivial⟩

theorem Sound.replay (h : w.Sound) (hreplay : w.replay events = some v) : v.Sound :=
  replay_keeps (fun _ _ _ hw hstep => hw.step hstep) h hreplay

/-- Where nothing can be done, the request that drains waits for its deadline and for somebody who is live: it has missed
no wake-up. -/
theorem Sound.asleep (h : w.Sound) (hrests : w.rests = true) {t : TimedCall} (ht : t ∈ w.calls) {deadline : Nat}
    (hview : t.call.view = .draining deadline) : w.now < deadline ∧ 0 < w.coordinator.live := by
  obtain ⟨hnone, hwait⟩ := rests_iff.1 hrests
  have hwaits := hwait t ht
  have hheeds := (h.calls t ht).heeds
  obtain ⟨call, made, last⟩ := t
  cases call with
  | plain call =>
    obtain rfl : call = .draining deadline := hview
    cases hwaits
  | armed due seen => cases hwaits
  | asleep due seen =>
    obtain rfl : due = deadline := ShutdownCall.draining.inj hview
    simp only [WaitingCall.step] at hwaits
    split at hwaits
    · cases hwaits
    · next hseen =>
      split at hwaits
      · cases hwaits
      · next hearly =>
        refine ⟨Nat.lt_of_not_le hearly, ?_⟩
        rcases hheeds.2 (Decidable.of_not_not hseen).symm with hlive | ⟨stay, hstay, hrousing⟩
        · exact hlive
        · have hrouse := hnone stay hstay
          cases stay with
          | rousing time => cases hrouse
          | _ => cases hrousing

end Closedown

/-! ## Progress -/

namespace WaitingCall

variable {now wakes : Nat} {c d : Coordinator} {call next : WaitingCall}

/-- How much a request has left to do: three for each step that it has without its wait, so that the steps of the wait
have room between looking for the last connection and counting. One for which a wake-up has been given starts its wait
again. -/
def weight (wakes : Nat) : WaitingCall → Nat
  | .plain call => 3 * call.stepsLeft
  | .armed _ seen => if seen = wakes then 14 else 17
  | .asleep _ seen => if seen = wakes then 13 else 16

theorem weight_lt (h : call.step now wakes c = some (next, d)) : next.weight wakes < call.weight wakes := by
  cases moves_of_step h with
  | plain _ hstep => exact Nat.mul_lt_mul_of_pos_left (ShutdownCall.stepsLeft_lt hstep) (by decide)
  | arm => simp [weight, ShutdownCall.stepsLeft]
  | wake hwoken => simp [weight, ShutdownCall.stepsLeft, Ne.symm hwoken]
  | find | sleep | expire =>
    simp only [weight, ShutdownCall.stepsLeft]
    split <;> omega

theorem weight_wake : call.weight (wakes + 1) ≤ call.weight wakes + 3 := by
  cases call with
  | plain call =>
    simp only [weight]
    omega
  | _ =>
    simp only [weight]
    split <;> split <;> omega

end WaitingCall

namespace Closedown

variable {v w : Closedown} {e : ClosedownEvent} {i k : Nat}

/-- How much all requests have left to do. -/
def work (wakes : Nat) : List TimedCall → Nat
  | [] => 0
  | t :: rest => t.call.weight wakes + work wakes rest

theorem work_middle (wakes : Nat) (before after : List TimedCall) (t : TimedCall) :
    work wakes (before ++ t :: after) = work wakes (before ++ after) + t.call.weight wakes := by
  induction before with
  | nil => exact Nat.add_comm _ _
  | cons first rest ih =>
    simp only [List.cons_append, work, ih]
    omega

theorem work_wake (wakes : Nat) (calls : List TimedCall) :
    work (wakes + 1) calls ≤ work wakes calls + 3 * calls.length := by
  induction calls with
  | nil => exact Nat.le_refl _
  | cons t rest ih =>
    have hle : t.call.weight (wakes + 1) ≤ t.call.weight wakes + 3 := WaitingCall.weight_wake
    simp only [work, List.length_cons]
    omega

/-- How much there is to do at most until nothing can be done. A wake-up may have every request start its wait again. -/
def load (w : Closedown) : Nat :=
  work w.wakes w.calls + w.stays.countP Stay.isRousing * (3 * w.calls.length + 1)

theorem load_call (h : w.step (.call k) = some v) : v.load < w.load := by
  obtain ⟨t, next, c, hk, hnext, rfl⟩ := step_call h
  obtain ⟨before, after, hsplit, hset⟩ := split_of_getElem? hk
  have hlt := WaitingCall.weight_lt hnext
  have hwork : work w.wakes (w.calls.set k { t with call := next, last := w.now }) < work w.wakes w.calls := by
    rw [hset, hsplit, work_middle, work_middle]
    exact Nat.add_lt_add_left hlt _
  unfold load
  simp only [List.length_set]
  omega

theorem load_rouse (h : w.step (.rouse i) = some v) : v.load < w.load := by
  obtain ⟨time, hstay, rfl⟩ := step_rouse h
  obtain ⟨before, after, hsplit, hset⟩ := split_of_getElem? hstay
  have hle := work_wake w.wakes w.calls
  have hcount : w.stays.countP Stay.isRousing = (w.stays.set i (.gone time)).countP Stay.isRousing + 1 := by
    rw [hset, hsplit, countP_middle, countP_middle]
    rfl
  unfold load
  simp only [hcount, Nat.succ_mul]
  omega

/-- Whatever can be done without anybody else leaves less to do. -/
theorem load_lt (h : w.step e = some v) (hown : e.isOwn = true) : v.load < w.load := by
  cases e with
  | call k => exact load_call h
  | rouse i => exact load_rouse h
  | _ => cases hown

theorem length_add_load_le {own : List ClosedownEvent} (hown : ∀ e ∈ own, e.isOwn = true)
    (h : w.replay own = some v) : own.length + v.load ≤ w.load := by
  induction own generalizing w with
  | nil =>
    cases h
    simp
  | cons e rest ih =>
    obtain ⟨u, hu, hrest⟩ := Option.bind_eq_some_iff.1 h
    have hlt := load_lt hu (hown e (List.mem_cons_self ..))
    have hle := ih (fun e he => hown e (List.mem_cons_of_mem _ he)) hrest
    simp only [List.length_cons]
    omega

/-- As long as it does not rest there is something that can be done. -/
theorem exists_own (h : w.rests = false) : ∃ e v, e.isOwn = true ∧ w.step e = some v := by
  rw [rests, Bool.and_eq_false_iff] at h
  rcases h with h | h
  · obtain ⟨stay, hstay, hrouse⟩ := List.all_eq_false.1 h
    obtain ⟨i, hi⟩ := List.mem_iff_getElem?.1 hstay
    obtain ⟨next, hnext⟩ := Option.ne_none_iff_exists'.1 (mt Option.isNone_iff_eq_none.2 hrouse)
    refine ⟨.rouse i, { w with wakes := w.wakes + 1, stays := w.stays.set i next }, rfl, ?_⟩
    rw [step, hi, Option.bind_some, hnext, Option.map_some]
  · obtain ⟨t, ht, hstep⟩ := List.all_eq_false.1 h
    obtain ⟨k, hk⟩ := List.mem_iff_getElem?.1 ht
    obtain ⟨⟨next, c⟩, hnext⟩ := Option.ne_none_iff_exists'.1 (mt Option.isNone_iff_eq_none.2 hstep)
    refine ⟨.call k, { w with
      coordinator := c, calls := w.calls.set k { t with call := next, last := w.now } }, rfl, ?_⟩
    rw [step, hk, Option.bind_some, hnext, Option.map_some]

/-- By what can be done at this time it comes to rest. -/
theorem exists_rest (w : Closedown) :
    ∃ own v, (∀ e ∈ own, e.isOwn = true) ∧ w.replay own = some v ∧ v.rests = true := by
  induction hload : w.load using Nat.strongRecOn generalizing w with
  | _ n ih =>
    cases hrests : w.rests with
    | true => exact ⟨[], w, by simp, rfl, hrests⟩
    | false =>
      obtain ⟨e, u, hown, hu⟩ := exists_own hrests
      obtain ⟨own, v, hall, hv, hrest⟩ := ih u.load (hload ▸ load_lt hu hown) u rfl
      refine ⟨e :: own, v, ?_, ?_, hrest⟩
      · rintro e' he'
        rcases List.mem_cons.1 he' with rfl | he'
        · exact hown
        · exact hall e' he'
      · rw [replay, hu, Option.bind_some, hv]

end Closedown

end Hypertext
