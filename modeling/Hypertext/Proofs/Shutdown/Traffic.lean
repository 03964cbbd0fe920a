/-
Calls on one coordinator that overlap. Connections are registered, their guards are dropped and shutdowns are
requested, by any number of callers; each call works in single steps, and between two of them the others may take
theirs in any order.

Three accounts hold at every time: the counter is the number of live guards and of calls that are counted and not
decided; at most one call leads the shutdown, and what the others can have found depends on how far it has come; and
once the shutdown has begun no more guards are to be had than there were.
-/
import Hypertext.Shutdown.Coordinator

namespace Hypertext

/-! ## Places in lists -/

/-- A place in a list, and what the list is after another element has been put there. -/
theorem split_of_getElem? {α : Type} {l : List α} {i : Nat} {a : α} (h : l[i]? = some a) :
    ∃ before after, l = before ++ a :: after ∧ ∀ b, l.set i b = before ++ b :: after := by
  obtain ⟨hi, rfl⟩ := List.getElem?_eq_some_iff.1 h
  refine ⟨l.take i, l.drop (i + 1), ?_, fun b => List.set_eq_take_append_cons_drop.trans (if_pos hi)⟩
  rw [List.getElem_cons_drop, List.take_append_drop]

theorem countP_middle {α : Type} (p : α → Bool) (before after : List α) (a : α) :
    (before ++ a :: after).countP p = (before ++ after).countP p + (p a).toNat := by
  rw [List.countP_append, List.countP_append, List.countP_cons]
  cases p a with
  | false => rfl
  | true => rw [← Nat.add_assoc]; rfl

/-! ## States and calls -/

namespace ShutdownState

def isDraining : ShutdownState → Bool
  | .draining _ => true
  | _ => false

theorem isRunning_of_isDraining {s : ShutdownState} (h : s.isDraining = true) : s.isRunning = false := by
  cases s with
  | running => cases h
  | draining deadline => rfl
  | terminated => rfl

theorem isTerminated_of_isDraining {s : ShutdownState} (h : s.isDraining = true) : s.isTerminated = false := by
  cases s with
  | running => rfl
  | draining deadline => rfl
  | terminated => cases h

/-- A state stays or moves on: the shutdown begins, or it ends. -/
def GoesTo (a b : ShutdownState) : Prop :=
  b = a ∨ a = .running ∧ b.isDraining = true ∨ a.isDraining = true ∧ b = .terminated

end ShutdownState

namespace RegisterCall

/-- Whether a call is counted and nobody holds a guard for it. -/
def isPending : RegisterCall → Bool
  | .counted | .admitted | .refused => true
  | _ => false

def isAdmitted : RegisterCall → Bool
  | .admitted => true
  | _ => false

/-- Whether a call hands out a guard with its next step, or has. -/
def grants : RegisterCall → Bool
  | .admitted | .done (some _) => true
  | _ => false

/-- How many guards a call has handed out when it has come this far. -/
def handedOut : RegisterCall → Nat
  | .done (some _) => 1
  | _ => 0

theorem step_counted_of_running {c : Coordinator} (h : c.state.isRunning = true) :
    RegisterCall.counted.step c.count = some (.admitted, c.count) := by
  simp [step, Coordinator.count, h]

theorem step_counted_of_begun {c : Coordinator} (h : ¬c.state.isRunning = true) :
    RegisterCall.counted.step c.count = some (.refused, c.count) := by
  simp [step, Coordinator.count, h]

/-- A step of a call to register leaves the shutdown as it is. -/
theorem shutdown_step {call next : RegisterCall} {c d : Coordinator} (h : call.step c = some (next, d)) :
    d.state = c.state ∧ d.forced = c.forced := by
  cases call with
  | done id => cases h
  | _ => cases h; exact ⟨rfl, rfl⟩

end RegisterCall

namespace ShutdownCall

/-- Whether a call is the one that drains and ends the shutdown. -/
def leads : ShutdownCall → Bool
  | .draining _ | .counting | .recording _ | .ending => true
  | _ => false

/-- Whether a call has read the counter and not ended the shutdown yet. -/
def hasCounted : ShutdownCall → Bool
  | .recording _ | .ending => true
  | _ => false

/-- Where a call can be, by the coordinator and the number of guards that are live or sure to be handed out. -/
def Stands (c : Coordinator) (seats : Nat) : ShutdownCall → Prop
  | .fresh _ | .waiting => True
  | .draining _ | .counting => c.state.isDraining = true
  | .recording forced => c.state.isDraining = true ∧ seats ≤ forced
  | .ending => c.state.isDraining = true ∧ seats ≤ c.forced
  | .reporting => c.state.isTerminated = true
  | .done report => c.state.isTerminated = true ∧ report = c.report

variable {c d : Coordinator} {call : ShutdownCall} {m n : Nat}

/-- Where a call can be does not change when guards are dropped. -/
theorem Stands.mono (h : call.Stands c n) (hstate : d.state = c.state) (hforced : d.forced = c.forced)
    (hle : c.state.isRunning = false → m ≤ n) : call.Stands d m := by
  have hdrains : c.state.isDraining = true → m ≤ n := fun hd => hle (ShutdownState.isRunning_of_isDraining hd)
  cases call with
  | fresh grace => trivial
  | waiting => trivial
  | draining deadline => rw [Stands, hstate]; exact h
  | counting => rw [Stands, hstate]; exact h
  | recording forced =>
    obtain ⟨hd, hn⟩ := h
    exact ⟨hstate ▸ hd, Nat.le_trans (hdrains hd) hn⟩
  | ending =>
    obtain ⟨hd, hn⟩ := h
    exact ⟨hstate ▸ hd, hforced ▸ Nat.le_trans (hdrains hd) hn⟩
  | reporting => rw [Stands, hstate]; exact h
  | done report =>
    obtain ⟨ht, hr⟩ := h
    refine ⟨hstate ▸ ht, ?_⟩
    rw [hr, Coordinator.report, Coordinator.report, hforced]

/-- A call that leads does so while the shutdown goes on. -/
theorem Stands.isDraining (h : call.Stands c n) (hl : call.leads = true) : c.state.isDraining = true := by
  cases call with
  | draining deadline => exact h
  | counting => exact h
  | recording forced => exact h.1
  | ending => exact h.1
  | _ => cases hl

/-- A call that does not lead and has not seen the end can be where it is at any time. -/
theorem Stands.of_idle (h : call.Stands c n) (hl : call.leads = false) (ht : c.state.isTerminated = false)
    (d : Coordinator) (m : Nat) : call.Stands d m := by
  cases call with
  | fresh grace => trivial
  | waiting => trivial
  | reporting => rw [Stands, ht] at h; cases h
  | done report => rw [Stands, ht] at h; cases h.1
  | _ => cases hl

/-- Only the call that leads changes the coordinator once the shutdown has begun. -/
theorem step_of_idle {now : Nat} {call next : ShutdownCall} {c d : Coordinator}
    (h : call.step now c = some (next, d)) (hl : call.leads = false) (hs : c.state.isRunning = false) : d = c := by
  cases call with
  | fresh grace =>
    simp only [step, hs, Bool.false_eq_true, if_false] at h
    cases h
    rfl
  | waiting =>
    simp only [step] at h
    split at h
    · cases h; rfl
    · cases h
  | reporting => cases h; rfl
  | done report => cases h
  | _ => cases hl

end ShutdownCall

/-! ## Events -/

/-- What happens next: somebody calls to register a connection or goes on with such a call, drops a guard, requests a
shutdown or goes on with such a request, or time passes. -/
inductive TrafficEvent
  | enter
  | register (i : Nat)
  | drop
  | shutDown (grace : Nat)
  | call (k : Nat)
  | pass (ms : Nat)
  deriving DecidableEq, Repr

/-- A coordinator at some time, with the calls to register connections, the number of live guards, and the requests to
shut down. -/
structure Traffic where
  now : Nat
  coordinator : Coordinator
  entries : List RegisterCall
  guards : Nat
  calls : List ShutdownCall
  deriving DecidableEq, Repr

namespace Traffic

def start : Traffic := ⟨0, .start, [], 0, []⟩

/-- What follows an event; none if it cannot happen. -/
def step (t : Traffic) : TrafficEvent → Option Traffic
  | .enter => some { t with entries := t.entries ++ [.fresh] }
  | .register i =>
    t.entries[i]?.bind fun call => (call.step t.coordinator).map fun (next, coordinator) =>
      { t with coordinator, entries := t.entries.set i next, guards := t.guards + next.handedOut }
  | .drop =>
    if 0 < t.guards then some { t with coordinator := t.coordinator.release, guards := t.guards - 1 } else none
  | .shutDown grace => some { t with calls := t.calls ++ [.fresh grace] }
  | .call k =>
    t.calls[k]?.bind fun call => (call.step t.now t.coordinator).map fun (next, coordinator) =>
      { t with coordinator, calls := t.calls.set k next }
  | .pass ms => some { t with now := t.now + ms }

/-- Events one after another; none if one of them cannot happen. -/
def replay : List TrafficEvent → Traffic → Option Traffic
  | [], t => some t
  | e :: rest, t => (t.step e).bind (replay rest)

/-- How many calls are counted for which nobody holds a guard. -/
def pending (t : Traffic) : Nat := t.entries.countP RegisterCall.isPending

/-- How many guards are live or sure to be handed out. -/
def seats (t : Traffic) : Nat := t.guards + t.entries.countP RegisterCall.isAdmitted

variable {t u v : Traffic} {e : TrafficEvent} {events earlier later : List TrafficEvent}

theorem replay_append (earlier later : List TrafficEvent) (t : Traffic) :
    t.replay (earlier ++ later) = (t.replay earlier).bind (replay later) := by
  induction earlier generalizing t with
  | nil => rfl
  | cons e rest ih =>
    simp only [List.cons_append, replay, Option.bind_assoc]
    exact congrArg _ (funext ih)

theorem replay_append_of_eq (h : t.replay earlier = some u) : t.replay (earlier ++ later) = u.replay later := by
  rw [replay_append, h, Option.bind_some]

/-- What each event keeps all of them keep. -/
theorem replay_keeps {P : Traffic → Prop} (hstep : ∀ e t u, P t → t.step e = some u → P u) :
    ∀ {events : List TrafficEvent} {t u : Traffic}, P t → t.replay events = some u → P u
  | [], t, u, ht, h => by
    cases h
    exact ht
  | e :: rest, t, u, ht, h => by
    obtain ⟨v, hv, hrest⟩ := Option.bind_eq_some_iff.1 h
    exact replay_keeps hstep (hstep e t v ht hv) hrest

/-- A step of a call to register. -/
theorem step_register {i : Nat} (h : t.step (.register i) = some u) :
    ∃ before call after next c, t.entries = before ++ call :: after ∧ call.step t.coordinator = some (next, c) ∧
      u = { t with coordinator := c, entries := before ++ next :: after, guards := t.guards + next.handedOut } := by
  obtain ⟨call, hcall, h⟩ := Option.bind_eq_some_iff.1 h
  obtain ⟨⟨next, c⟩, hnext, rfl⟩ := Option.map_eq_some_iff.1 h
  obtain ⟨before, after, hsplit, hset⟩ := split_of_getElem? hcall
  exact ⟨before, call, after, next, c, hsplit, hnext, by simp only [hset]⟩

/-- A step of a request to shut down. -/
theorem step_call {k : Nat} (h : t.step (.call k) = some u) :
    ∃ before call after next c, t.calls[k]? = some call ∧ t.calls = before ++ call :: after ∧
      call.step t.now t.coordinator = some (next, c) ∧
      u = { t with coordinator := c, calls := before ++ next :: after } := by
  obtain ⟨call, hcall, h⟩ := Option.bind_eq_some_iff.1 h
  obtain ⟨⟨next, c⟩, hnext, rfl⟩ := Option.map_eq_some_iff.1 h
  obtain ⟨before, after, hsplit, hset⟩ := split_of_getElem? hcall
  exact ⟨before, call, after, next, c, hcall, hsplit, hnext, by simp only [hset]⟩

/-- The call to register that came last goes on. -/
theorem step_register_last {entries : List RegisterCall} {call next : RegisterCall} {c d : Coordinator} {n : Nat}
    (h : call.step c = some (next, d)) :
    { t with coordinator := c, entries := entries ++ [call], guards := n }.step (.register entries.length) =
      some { t with coordinator := d, entries := entries ++ [next], guards := n + next.handedOut } := by
  simp only [step, List.getElem?_concat_length, Option.bind_some, h, Option.map_some,
    List.set_append_right _ _ (Nat.le_refl _), Nat.sub_self, List.set_cons_zero]

/-- A request that has got somewhere goes on from there. -/
theorem step_call_set {k : Nat} (hk : k < t.calls.length) {call next : ShutdownCall} {c d : Coordinator}
    (h : call.step t.now c = some (next, d)) :
    { t with coordinator := c, calls := t.calls.set k call }.step (.call k) =
      some { t with coordinator := d, calls := t.calls.set k next } := by
  simp only [step, List.getElem?_set_self hk, Option.bind_some, h, Option.map_some, List.set_set]

/-! ## What holds at every time -/

structure Sound (t : Traffic) : Prop where
  count : t.coordinator.live = t.guards + t.pending
  leader : t.calls.countP ShutdownCall.leads = t.coordinator.state.isDraining.toNat
  calls : ∀ call ∈ t.calls, call.Stands t.coordinator t.seats
  ended : t.coordinator.state.isTerminated = true → t.seats ≤ t.coordinator.forced

theorem sound_start : start.Sound := by
  refine ⟨rfl, rfl, ?_, ?_⟩
  · rintro call ⟨⟩
  · rintro ⟨⟩

/-- What leaves the state of the shutdown and the requests as they are, and gives nobody a seat once the shutdown has
begun. -/
theorem Sound.keep (h : t.Sound) (hcount : u.coordinator.live = u.guards + u.pending) (hcalls : u.calls = t.calls)
    (hstate : u.coordinator.state = t.coordinator.state) (hforced : u.coordinator.forced = t.coordinator.forced)
    (hseats : t.coordinator.state.isRunning = false → u.seats ≤ t.seats) : u.Sound := by
  refine ⟨hcount, ?_, ?_, ?_⟩
  · rw [hcalls, hstate]
    exact h.leader
  · intro call hcall
    rw [hcalls] at hcall
    exact (h.calls call hcall).mono hstate hforced hseats
  · intro hended
    rw [hstate] at hended
    rw [hforced]
    exact Nat.le_trans (hseats (ShutdownState.isRunning_of_isTerminated hended)) (h.ended hended)

theorem Sound.register (h : t.Sound) {i : Nat} (hstep : t.step (.register i) = some u) : u.Sound := by
  obtain ⟨before, call, after, next, c, hentries, hnext, rfl⟩ := step_register hstep
  have hcount := h.count
  simp only [pending, hentries, countP_middle] at hcount
  have hseats : t.seats =
      t.guards + ((before ++ after).countP RegisterCall.isAdmitted + call.isAdmitted.toNat) := by
    rw [seats, hentries, countP_middle]
  cases call with
  | fresh =>
    cases hnext
    refine h.keep ?_ rfl rfl rfl fun _ => ?_
    · simp only [pending, countP_middle, Coordinator.count, hcount]
      rfl
    · rw [hseats, seats, countP_middle]
      exact Nat.le_refl _
  | counted =>
    cases hnext
    refine h.keep ?_ rfl rfl rfl fun hstops => ?_
    · simp only [pending, countP_middle, hcount]
      split <;> rfl
    · rw [hseats, seats, countP_middle, hstops]
      exact Nat.le_refl _
  | admitted =>
    cases hnext
    refine h.keep ?_ rfl rfl rfl fun _ => ?_
    · simp only [pending, countP_middle, Coordinator.issue, hcount, RegisterCall.isPending, RegisterCall.handedOut,
        Bool.toNat_true, Bool.toNat_false]
      omega
    · rw [hseats, seats, countP_middle]
      simp only [RegisterCall.isAdmitted, RegisterCall.handedOut, Bool.toNat_true, Bool.toNat_false]
      omega
  | refused =>
    cases hnext
    refine h.keep ?_ rfl rfl rfl fun _ => ?_
    · simp only [pending, countP_middle, Coordinator.release, hcount, RegisterCall.isPending, RegisterCall.handedOut,
        Bool.toNat_true, Bool.toNat_false]
      omega
    · rw [hseats, seats, countP_middle]
      exact Nat.le_refl _
  | done id => cases hnext

/-- While a call leads no other one does, and before the shutdown begins none does. -/
theorem Sound.others (h : t.Sound) {before after : List ShutdownCall} {call : ShutdownCall}
    (hcalls : t.calls = before ++ call :: after)
    (hwhen : call.leads = true ∨ t.coordinator.state.isRunning = true) :
    t.coordinator.state.isTerminated = false ∧ ∀ other ∈ before ++ after, other.leads = false := by
  have hleader := h.leader
  rw [hcalls, countP_middle] at hleader
  have hnone : t.coordinator.state.isTerminated = false ∧ (before ++ after).countP ShutdownCall.leads = 0 := by
    rcases hwhen with hl | hr
    · have hmem : call ∈ t.calls := by
        rw [hcalls]
        exact List.mem_append_right _ (List.mem_cons_self ..)
      have hdraining := (h.calls call hmem).isDraining hl
      rw [hl, hdraining] at hleader
      exact ⟨ShutdownState.isTerminated_of_isDraining hdraining, Nat.succ.inj hleader⟩
    · cases hs : t.coordinator.state with
      | running =>
        rw [hs] at hleader
        exact ⟨rfl, Nat.eq_zero_of_add_eq_zero_right hleader⟩
      | draining deadline => rw [hs] at hr; cases hr
      | terminated => rw [hs] at hr; cases hr
  refine ⟨hnone.1, ?_⟩
  intro other hother
  exact Bool.eq_false_iff.2 (List.countP_eq_zero.1 hnone.2 other hother)

/-- A request goes on and the coordinator stays as it is. -/
theorem Sound.stay (h : t.Sound) {before after : List ShutdownCall} {call next : ShutdownCall}
    (hcalls : t.calls = before ++ call :: after) (hnext : next.Stands t.coordinator t.seats)
    (hleads : next.leads = call.leads) : { t with calls := before ++ next :: after }.Sound := by
  refine ⟨h.count, ?_, ?_, h.ended⟩
  · have hleader := h.leader
    rw [hcalls, countP_middle] at hleader
    rw [countP_middle, hleads]
    exact hleader
  · intro other hother
    rw [List.mem_append, List.mem_cons] at hother
    rcases hother with hother | rfl | hother
    · refine h.calls other ?_
      rw [hcalls]
      exact List.mem_append_left _ hother
    · exact hnext
    · refine h.calls other ?_
      rw [hcalls]
      exact List.mem_append_right _ (List.mem_cons_of_mem _ hother)

/-- The call that leads changes the coordinator; the others are where they can be at any time. -/
theorem Sound.change (h : t.Sound) {before after : List ShutdownCall} {call next : ShutdownCall} {c : Coordinator}
    (hcalls : t.calls = before ++ call :: after)
    (hwhen : call.leads = true ∨ t.coordinator.state.isRunning = true) (hlive : c.live = t.coordinator.live)
    (hnext : next.Stands c t.seats) (hleads : next.leads = c.state.isDraining)
    (hended : c.state.isTerminated = true → t.seats ≤ c.forced) :
    { t with coordinator := c, calls := before ++ next :: after }.Sound := by
  obtain ⟨hgoes, hothers⟩ := h.others hcalls hwhen
  refine ⟨hlive.trans h.count, ?_, ?_, hended⟩
  · have hzero : (before ++ after).countP ShutdownCall.leads = 0 :=
      List.countP_eq_zero.2 fun other hother => Bool.eq_false_iff.1 (hothers other hother)
    rw [countP_middle, hzero, hleads, Nat.zero_add]
  · have hidle : ∀ other ∈ before ++ after, other.Stands c t.seats := by
      intro other hother
      have hmem : other ∈ t.calls := by
        rw [hcalls, List.mem_append, List.mem_cons]
        exact (List.mem_append.1 hother).imp_right .inr
      exact (h.calls other hmem).of_idle (hothers other hother) hgoes c _
    intro other hother
    rw [List.mem_append, List.mem_cons] at hother
    rcases hother with hother | rfl | hother
    · exact hidle other (List.mem_append_left _ hother)
    · exact hnext
    · exact hidle other (List.mem_append_right _ hother)

/-- The guards that are live are counted. -/
theorem Sound.seats_le (h : t.Sound) : t.seats ≤ t.coordinator.live := by
  have hle : t.entries.countP RegisterCall.isAdmitted ≤ t.entries.countP RegisterCall.isPending := by
    refine List.countP_mono_left fun call _ hadmitted => ?_
    cases call with
    | admitted => rfl
    | _ => cases hadmitted
  rw [h.count]
  exact Nat.add_le_add_left hle _

theorem Sound.call (h : t.Sound) {k : Nat} (hstep : t.step (.call k) = some u) : u.Sound := by
  obtain ⟨before, call, after, next, c, -, hcalls, hnext, rfl⟩ := step_call hstep
  have hstands : call.Stands t.coordinator t.seats := by
    refine h.calls call ?_
    rw [hcalls]
    exact List.mem_append_right _ (List.mem_cons_self ..)
  cases call with
  | fresh grace =>
    simp only [ShutdownCall.step] at hnext
    split at hnext
    · next hruns =>
      cases hnext
      exact h.change hcalls (.inr hruns) rfl rfl rfl fun hended => by cases hended
    · cases hnext
      exact h.stay hcalls trivial rfl
  | draining deadline =>
    simp only [ShutdownCall.step] at hnext
    split at hnext
    · cases hnext
      exact h.stay hcalls hstands rfl
    · cases hnext
  | counting =>
    cases hnext
    exact h.stay hcalls ⟨hstands, h.seats_le⟩ rfl
  | recording forced =>
    cases hnext
    obtain ⟨hdraining, hle⟩ := hstands
    refine h.change hcalls (.inl rfl) rfl ⟨hdraining, hle⟩ hdraining.symm fun hended => ?_
    obtain ⟨hgoes, -⟩ := h.others hcalls (.inl rfl)
    exact absurd hended (Bool.eq_false_iff.1 hgoes)
  | ending =>
    cases hnext
    exact h.change hcalls (.inl rfl) rfl rfl rfl fun _ => hstands.2
  | waiting =>
    simp only [ShutdownCall.step] at hnext
    split at hnext
    · next hended =>
      cases hnext
      exact h.stay hcalls hended rfl
    · cases hnext
  | reporting =>
    cases hnext
    exact h.stay hcalls ⟨hstands, rfl⟩ rfl
  | done report => cases hnext

theorem Sound.step (h : t.Sound) (hstep : t.step e = some u) : u.Sound := by
  cases e with
  | enter =>
    cases hstep
    refine h.keep ?_ rfl rfl rfl fun _ => ?_
    · simp only [pending, List.countP_append]
      exact h.count
    · simp only [seats, List.countP_append]
      exact Nat.le_refl _
  | register i => exact h.register hstep
  | drop =>
    simp only [Traffic.step] at hstep
    split at hstep
    · next hlive =>
      cases hstep
      have hcount := h.count
      refine h.keep ?_ rfl rfl rfl fun _ => ?_
      · simp only [pending, Coordinator.release] at hcount ⊢
        omega
      · simp only [seats]
        omega
    · cases hstep
  | shutDown grace =>
    cases hstep
    refine ⟨h.count, ?_, ?_, h.ended⟩
    · rw [List.countP_append]
      exact h.leader
    · intro call hcall
      rcases List.mem_append.1 hcall with hcall | hcall
      · exact h.calls call hcall
      · rw [List.mem_singleton.1 hcall]
        trivial
  | call k => exact h.call hstep
  | pass ms =>
    cases hstep
    exact ⟨h.count, h.leader, h.calls, h.ended⟩

theorem Sound.replay (h : t.Sound) (hreplay : t.replay events = some u) : u.Sound :=
  replay_keeps (fun _ _ _ ht => ht.step) h hreplay

end Traffic

end Hypertext
