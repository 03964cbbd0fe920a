/-
The registry, with its tasks and its timers, is one way in which calls on a coordinator can overlap: whatever is done
with it, its coordinator, its requests and its live guards are those of some replay of single steps. So what holds of
all of these holds of it.
-/
import Hypertext.Proofs.Shutdown.Reports
import Hypertext.Proofs.Time.Passing
import Hypertext.Shutdown.Registry

namespace Hypertext

/-- What each step of a call keeps, a call keeps that goes on by itself. -/
theorem Coordinator.serve_keeps {κ : Type} {step : Coordinator → κ → Option (κ × Coordinator)}
    {P : κ → Coordinator → Prop}
    (hstep : ∀ c call next d, P call c → step c call = some (next, d) → P next d) :
    ∀ (n : Nat) (call : κ) (c : Coordinator), P call c → P (serve step n call c).1 (serve step n call c).2
  | 0, _, _, h => h
  | n + 1, call, c, h => by
    rw [serve]
    cases hs : step c call with
    | none => exact h
    | some next => exact serve_keeps hstep n next.1 next.2 (hstep c call next.1 next.2 h hs)

/-- A request that is left waiting waits for a time to come. -/
theorem ShutdownCall.deadline_of_run {now deadline : Nat} {call : ShutdownCall} {c : Coordinator}
    (h : (call.run now c).1.deadline? = some deadline) : now < deadline := by
  have hwaits := step_run now call c
  generalize call.run now c = after at h hwaits
  obtain ⟨call, c⟩ := after
  cases call with
  | draining due =>
    obtain rfl : due = deadline := Option.some.inj h
    simp only [step, isOver] at hwaits
    grind
  | _ => cases h

namespace Traffic

/-- What overlapping calls on one coordinator can come to. -/
def Reached (t : Traffic) : Prop := ∃ events, start.replay events = some t

variable {t u : Traffic} {events : List TrafficEvent}

theorem reached_start : start.Reached := ⟨[], rfl⟩

theorem Reached.replay (h : t.Reached) (hu : t.replay events = some u) : u.Reached := by
  obtain ⟨earlier, hearlier⟩ := h
  exact ⟨earlier ++ events, (replay_append_of_eq hearlier).trans hu⟩

theorem Reached.step {e : TrafficEvent} (h : t.Reached) (hu : t.step e = some u) : u.Reached := by
  have hreplay : t.replay [e] = some u := by
    rw [Traffic.replay, hu]
    rfl
  exact h.replay hreplay

theorem Reached.sound (h : t.Reached) : t.Sound := by
  obtain ⟨events, hevents⟩ := h
  exact sound_start.replay hevents

/-- A request goes on until it has to wait. -/
theorem Reached.run (h : t.Reached) {k : Nat} {call : ShutdownCall} (hk : t.calls[k]? = some call) :
    { t with
      coordinator := (call.run t.now t.coordinator).2
      calls := t.calls.set k (call.run t.now t.coordinator).1 }.Reached := by
  obtain ⟨hlt, hcall⟩ := List.getElem?_eq_some_iff.1 hk
  refine Coordinator.serve_keeps (P := fun call c => { t with coordinator := c, calls := t.calls.set k call }.Reached)
    ?_ _ call t.coordinator ?_
  · exact fun c call next d hreached hstep => hreached.step (Traffic.step_call_set hlt hstep)
  · rw [← hcall, List.set_getElem_self]
    exact h

/-- A connection is registered, or refused, in one go. -/
theorem Reached.register (h : t.Reached) :
    { t with
      coordinator := t.coordinator.register.2
      entries := t.entries ++ [RegisterCall.done t.coordinator.register.1]
      guards := t.guards + t.coordinator.register.1.toList.length }.Reached := by
  have hentered : { t with entries := t.entries ++ [RegisterCall.fresh] }.Reached := h.step (e := .enter) rfl
  have hcounted := hentered.step (step_register_last rfl)
  rw [Coordinator.register_eq]
  by_cases hruns : t.coordinator.state.isRunning = true
  · rw [if_pos hruns]
    exact (hcounted.step (step_register_last (RegisterCall.step_counted_of_running hruns))).step (step_register_last rfl)
  · rw [if_neg hruns]
    exact (hcounted.step (step_register_last (RegisterCall.step_counted_of_begun hruns))).step (step_register_last rfl)

end Traffic

/-! ## The registry -/

namespace Guard

def isLive : Guard → Bool
  | .gone => false
  | _ => true

end Guard

namespace GuardBook

/-- A coordinator with its calls at some time is as the book has it, and no call to register is under way. -/
structure Follows (now : Nat) (b : GuardBook) (t : Traffic) : Prop where
  now : t.now = now
  coordinator : t.coordinator = b.coordinator
  calls : t.calls = b.calls
  guards : t.guards = b.guards.countP Guard.isLive
  idle : t.pending = 0

/-- The book is as overlapping calls can leave it. -/
def Replayed (now : Nat) (b : GuardBook) : Prop := ∃ t, t.Reached ∧ b.Follows now t

variable {now later i k : Nat} {b : GuardBook}

theorem Replayed.pass (h : b.Replayed now) (hle : now ≤ later) : b.Replayed later := by
  obtain ⟨t, ht, hf⟩ := h
  refine ⟨{ t with now := t.now + (later - now) }, ht.step (e := .pass (later - now)) rfl, ?_⟩
  refine ⟨?_, hf.coordinator, hf.calls, hf.guards, hf.idle⟩
  show t.now + (later - now) = later
  rw [hf.now]
  omega

/-- A request that goes on by itself. -/
theorem Replayed.goOn (h : b.Replayed now) {call : ShutdownCall} (hk : b.calls[k]? = some call) :
    { b with
      coordinator := (call.run now b.coordinator).2
      calls := b.calls.set k (call.run now b.coordinator).1 }.Replayed now := by
  obtain ⟨t, ht, rfl, hcoordinator, hcalls, hguards, hidle⟩ := h
  have hrun := ht.run (hcalls ▸ hk)
  rw [← hcoordinator, ← hcalls]
  exact ⟨_, hrun, rfl, rfl, rfl, hguards, hidle⟩

/-- A guard that there is has its place in the book. -/
theorem exists_guard (hlive : b.guardOf i ≠ .gone) : ∃ g, b.guards[i]? = some g ∧ g.isLive = true := by
  rw [guardOf, List.getD_eq_getElem?_getD] at hlive
  cases hg : b.guards[i]? with
  | none =>
    rw [hg] at hlive
    exact absurd rfl hlive
  | some g =>
    rw [hg] at hlive
    refine ⟨g, rfl, ?_⟩
    cases g with
    | gone => exact absurd rfl hlive
    | _ => rfl

/-- A guard that is live is dropped. -/
theorem Replayed.release (h : b.Replayed now) (hlive : b.guardOf i ≠ .gone) :
    { b with coordinator := b.coordinator.release, guards := b.guards.set i .gone }.Replayed now := by
  obtain ⟨t, ht, hnow, hcoordinator, hcalls, hguards, hidle⟩ := h
  obtain ⟨g, hg, hgone⟩ := exists_guard hlive
  obtain ⟨before, after, hsplit, hset⟩ := split_of_getElem? hg
  rw [hsplit, countP_middle, hgone] at hguards
  have hpos : 0 < t.guards := by
    rw [hguards]
    exact Nat.succ_pos _
  refine ⟨{ t with coordinator := t.coordinator.release, guards := t.guards - 1 }, ht.step (e := .drop) ?_, hnow, ?_,
    hcalls, ?_, hidle⟩
  · rw [Traffic.step, if_pos hpos]
  · rw [← hcoordinator]
  · show t.guards - 1 = _
    rw [hset, countP_middle, hguards]
    rfl

/-- When a guard is dropped the calls may look again. -/
theorem Replayed.leave {t : Timeline GuardTask} (ht : t.Ahead) (h : b.Replayed t.now) (i : Nat) :
    (b.release i t).1.now = t.now ∧ (b.release i t).1.Ahead ∧ (b.release i t).2.Replayed t.now := by
  rw [GuardBook.release]
  split
  · exact ⟨rfl, ht, h⟩
  · next hlive =>
    refine ⟨?_, ?_, h.release hlive⟩
    · show (if _ then t.wakeAll _ else t).now = t.now
      split
      · exact Timeline.now_wakeAll
      · rfl
    · show (if _ then t.wakeAll _ else t).Ahead
      split
      · exact ht.wakeAll
      · exact ht

/-- A turn takes single steps, and sets timers for times to come. -/
theorem Replayed.turn (task : GuardTask) {t : Timeline GuardTask} (ht : t.Ahead) (h : b.Replayed t.now) :
    (turn task t b).1.now = t.now ∧ (turn task t b).1.Ahead ∧ (turn task t b).2.Replayed t.now := by
  cases task with
  | release i due =>
    rw [GuardBook.turn]
    split
    · exact h.leave ht i
    · next hearly =>
      refine ⟨Timeline.now_schedule, ht.schedule ?_, h⟩
      rintro d ⟨⟩
      omega
  | call k =>
    rw [GuardBook.turn]
    split
    · exact ⟨rfl, ht, h⟩
    · next call hk =>
      have hdue : ∀ d, (call.run t.now b.coordinator).1.deadline? = some d → t.now ≤ d :=
        fun d hd => Nat.le_of_lt (ShutdownCall.deadline_of_run hd)
      refine ⟨?_, ?_, h.goOn hk⟩
      · show (Timeline.schedule _ _ (if _ then t else t.wakeAll _)).now = t.now
        rw [Timeline.now_schedule]
        split
        · rfl
        · exact Timeline.now_wakeAll
      · show (Timeline.schedule _ _ (if _ then t else t.wakeAll _)).Ahead
        split
        · exact ht.schedule hdue
        · refine ht.wakeAll.schedule ?_
          rw [Timeline.now_wakeAll]
          exact hdue

end GuardBook

namespace Registry

/-- Whatever is done with a registry. -/
inductive Reached : Registry → Prop
  | start : Reached start
  | register {r : Registry} (before : Reached r) : Reached r.register.2
  | release {r : Registry} (before : Reached r) (i : Nat) : Reached (r.release i)
  | releaseAfter {r : Registry} (before : Reached r) (i ms : Nat) : Reached (r.releaseAfter i ms)
  | shutDown {r : Registry} (before : Reached r) (grace : Nat) : Reached (r.shutDown grace)
  | pass {r : Registry} (before : Reached r) (ms : Nat) : Reached (r.pass ms)

/-- No timer is late, and the registry is as overlapping calls can leave a coordinator. -/
def Replayed (r : Registry) : Prop := r.timeline.Ahead ∧ r.book.Replayed r.timeline.now

variable {r : Registry}

theorem replayed_start : start.Replayed := ⟨Timeline.ahead_start, _, Traffic.reached_start, rfl, rfl, rfl, rfl, rfl⟩

theorem Replayed.register (h : r.Replayed) : r.register.2.Replayed := by
  obtain ⟨hahead, t, ht, hnow, hcoordinator, hcalls, hguards, hidle⟩ := h
  refine ⟨hahead, _, ht.register, hnow, ?_, hcalls, ?_, ?_⟩
  · show t.coordinator.register.2 = r.book.coordinator.register.2
    rw [hcoordinator]
  · show t.guards + _ =
      (r.book.guards ++ [if r.book.coordinator.register.1.isSome then Guard.held else Guard.gone]).countP _
    rw [List.countP_append, hguards, hcoordinator]
    cases r.book.coordinator.register.1 <;> rfl
  · show (t.entries ++ _).countP _ = 0
    rw [List.countP_append]
    exact hidle

theorem Replayed.release (h : r.Replayed) (i : Nat) : (r.release i).Replayed := by
  rw [Registry.release]
  split
  · obtain ⟨hahead, hreplayed⟩ := h
    obtain ⟨hnow, hahead', hreplayed'⟩ := hreplayed.leave hahead i
    refine ⟨hahead', ?_⟩
    show (r.book.release i r.timeline).2.Replayed (r.book.release i r.timeline).1.now
    rw [hnow]
    exact hreplayed'
  · exact h

theorem Replayed.releaseAfter (h : r.Replayed) (i ms : Nat) : (r.releaseAfter i ms).Replayed := by
  rw [Registry.releaseAfter]
  split
  · next hheld =>
    obtain ⟨hahead, t, ht, hnow, hcoordinator, hcalls, hguards, hidle⟩ := h
    refine ⟨hahead.wake, t, ht, ?_, hcoordinator, hcalls, ?_, hidle⟩
    · show t.now = (Timeline.wake _ _).now
      rw [Timeline.now_wake]
      exact hnow
    · -- a guard that is to be dropped later is live until then
      obtain ⟨g, hg, hlive⟩ := GuardBook.exists_guard (b := r.book) (i := i) (by rw [hheld]; nofun)
      obtain ⟨before, after, hsplit, hset⟩ := split_of_getElem? hg
      rw [hguards, hset, hsplit, countP_middle, countP_middle, hlive]
      rfl
  · exact h

theorem Replayed.shutDown (h : r.Replayed) (grace : Nat) : (r.shutDown grace).Replayed := by
  obtain ⟨hahead, t, ht, hnow, hcoordinator, hcalls, hguards, hidle⟩ := h
  refine ⟨hahead.wake, { t with calls := t.calls ++ [.fresh grace] }, ht.step (e := .shutDown grace) rfl, ?_,
    hcoordinator, ?_, hguards, hidle⟩
  · show t.now = (Timeline.wake _ _).now
    rw [Timeline.now_wake]
    exact hnow
  · show t.calls ++ _ = r.book.calls ++ _
    rw [hcalls]

theorem Replayed.pass (h : r.Replayed) (ms : Nat) : (r.pass ms).Replayed := by
  obtain ⟨hahead, hreplayed⟩ := h
  -- for any number of turns, so that nothing depends on how many are allowed
  have hkeeps : ∀ turns, (Timeline.runUntil GuardBook.turn (r.timeline.now + ms) turns r.timeline r.book).1.Ahead ∧
      (Timeline.runUntil GuardBook.turn (r.timeline.now + ms) turns r.timeline r.book).2.Replayed
        (Timeline.runUntil GuardBook.turn (r.timeline.now + ms) turns r.timeline r.book).1.now := fun turns =>
    Timeline.runUntil_keeps (P := GuardBook.Replayed) (fun task t b ht hb => hb.turn task ht)
      (fun _ _ _ hle hb => hb.pass hle) _ turns _ _ (Nat.le_add_right _ _) hahead hreplayed
  unfold Registry.pass
  exact hkeeps _

theorem Reached.replayed (h : r.Reached) : r.Replayed := by
  induction h with
  | start => exact replayed_start
  | register before ih => exact ih.register
  | release before i ih => exact ih.release i
  | releaseAfter before i ms ih => exact ih.releaseAfter i ms
  | shutDown before grace ih => exact ih.shutDown grace
  | pass before ms ih => exact ih.pass ms

/-- The counter of a registry is the number of its live guards; once the shutdown has ended no more of them are live than
have been reported as forced; and all requests give the same report. -/
theorem Reached.account (h : r.Reached) :
    r.book.coordinator.live = r.book.guards.countP Guard.isLive ∧
    (r.book.coordinator.state.isTerminated = true →
      r.book.guards.countP Guard.isLive ≤ r.book.coordinator.forced) ∧
    ∀ report, .done report ∈ r.book.calls →
      r.book.coordinator.state.isTerminated = true ∧ report = r.book.coordinator.report := by
  obtain ⟨-, t, ht, -, hcoordinator, hcalls, hguards, hidle⟩ := h.replayed
  have hsound := ht.sound
  rw [← hcoordinator, ← hcalls, ← hguards]
  refine ⟨?_, ?_, ?_⟩
  · rw [hsound.count, hidle, Nat.add_zero]
  · intro hended
    exact Nat.le_trans (Nat.le_add_right _ _) (hsound.ended hended)
  · intro report hreport
    exact hsound.calls _ hreport

end Registry

end Hypertext
