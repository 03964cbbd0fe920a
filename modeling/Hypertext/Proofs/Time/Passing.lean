/-
How time passes. Timers are set for times to come, so that going from one to the next never goes back; and whatever
every turn keeps, and the passing of time keeps, holds when the turns have been taken up to a time.
-/
import Hypertext.Time.Timeline

namespace Hypertext.Timeline

variable {τ : Type} [BEq τ] {t : Timeline τ} {task : τ} {tasks : List τ} {due : Option Nat} {time : Nat}

/-- No timer is late. -/
def Ahead (t : Timeline τ) : Prop := ∀ timer ∈ t.timers, t.now ≤ timer.due

omit [BEq τ] in
theorem ahead_start : (start : Timeline τ).Ahead := by
  rintro timer ⟨⟩

/-! ## Waking tasks and setting timers -/

@[simp]
theorem now_wake : (t.wake task).now = t.now := by
  unfold wake
  split <;> rfl

@[simp]
theorem timers_wake : (t.wake task).timers = t.timers := by
  unfold wake
  split <;> rfl

theorem wakeAll_eq : (t.wakeAll tasks).now = t.now ∧ (t.wakeAll tasks).timers = t.timers := by
  unfold wakeAll
  induction tasks generalizing t with
  | nil => exact ⟨rfl, rfl⟩
  | cons task rest ih =>
    obtain ⟨hnow, htimers⟩ := ih (t := t.wake task)
    exact ⟨hnow.trans now_wake, htimers.trans timers_wake⟩

@[simp]
theorem now_wakeAll : (t.wakeAll tasks).now = t.now := wakeAll_eq.1

@[simp]
theorem timers_wakeAll : (t.wakeAll tasks).timers = t.timers := wakeAll_eq.2

@[simp]
theorem now_schedule : (t.schedule due task).now = t.now := by
  unfold schedule
  split
  · rfl
  · simp only []
    split <;> rfl

theorem Ahead.wake (h : t.Ahead) : (t.wake task).Ahead := by
  simpa [Ahead] using h

theorem Ahead.wakeAll (h : t.Ahead) : (t.wakeAll tasks).Ahead := by
  simpa [Ahead] using h

theorem Ahead.schedule (h : t.Ahead) (hdue : ∀ d, due = some d → t.now ≤ d) : (t.schedule due task).Ahead := by
  intro timer htimer
  rw [now_schedule]
  unfold Timeline.schedule at htimer
  split at htimer
  · exact h timer ((List.mem_filter.1 htimer).1)
  · next due =>
    simp only [] at htimer
    split at htimer
    · exact h timer htimer
    · rcases List.mem_append.1 htimer with htimer | htimer
      · exact h timer ((List.mem_filter.1 htimer).1)
      · rw [List.mem_singleton.1 htimer]
        exact hdue due rfl

/-! ## Going on -/

theorem now_moveTo : (t.moveTo time).now = time := by
  simp only [moveTo, now_wakeAll]

theorem ahead_moveTo : (t.moveTo time).Ahead := by
  intro timer htimer
  rw [now_moveTo]
  simp only [moveTo, timers_wakeAll] at htimer
  exact Nat.le_of_lt (by simpa using (List.mem_filter.1 htimer).2)

omit [BEq τ] in
/-- The next timer is not late either. -/
theorem Ahead.le_nextDue (h : t.Ahead) {d : Nat} (hd : t.nextDue? = some d) : t.now ≤ d := by
  obtain ⟨timer, htimer, rfl⟩ := List.mem_map.1 (List.min?_mem hd)
  exact h timer htimer

/-- What holds of a state at a time, if each turn keeps it and so does time, holds in the end. -/
theorem runUntil_keeps {σ : Type} {turn : τ → Timeline τ → σ → Timeline τ × σ} {P : Nat → σ → Prop}
    (hturn : ∀ task (t : Timeline τ) s, t.Ahead → P t.now s →
      (turn task t s).1.now = t.now ∧ (turn task t s).1.Ahead ∧ P t.now (turn task t s).2)
    (hpass : ∀ now later s, now ≤ later → P now s → P later s) (time : Nat) :
    ∀ (turns : Nat) (t : Timeline τ) (s : σ), t.now ≤ time → t.Ahead → P t.now s →
      (runUntil turn time turns t s).1.Ahead ∧
        P (runUntil turn time turns t s).1.now (runUntil turn time turns t s).2
  | 0, t, s, _, ht, hs => ⟨ht, hs⟩
  | n + 1, t, s, hle, ht, hs => by
    rw [runUntil]
    cases hnext : t.next? with
    | some next =>
      obtain ⟨task, rest⟩ := next
      -- to take a task out is nothing to the clock and the timers
      have hrest : rest.now = t.now ∧ rest.timers = t.timers := by
        unfold next? at hnext
        split at hnext
        · cases hnext
        · cases hnext
          exact ⟨rfl, rfl⟩
      obtain ⟨hnow, htimers⟩ := hrest
      have hahead : rest.Ahead := by
        intro timer htimer
        rw [hnow]
        exact ht timer (htimers ▸ htimer)
      obtain ⟨hnow', hahead', hs'⟩ := hturn task rest s hahead (hnow ▸ hs)
      exact runUntil_keeps hturn hpass time n _ _ (by omega) hahead' (hnow' ▸ hs')
    | none =>
      -- all tasks wait, so the clock goes to the next timer or to the end
      have hend : (t.moveTo time).Ahead ∧ P (t.moveTo time).now s := by
        rw [now_moveTo]
        exact ⟨ahead_moveTo, hpass _ _ _ hle hs⟩
      cases hdue : t.nextDue? with
      | none => exact hend
      | some due =>
        have hlate := ht.le_nextDue hdue
        show (if due ≤ time then _ else _ : Timeline τ × σ).1.Ahead ∧ P (if due ≤ time then _ else _ : Timeline τ × σ).1.now
          (if due ≤ time then _ else _ : Timeline τ × σ).2
        split
        · next hsoon =>
          refine runUntil_keeps hturn hpass time n _ _ ?_ ahead_moveTo ?_
          · rw [now_moveTo]
            exact hsoon
          · rw [now_moveTo]
            exact hpass _ _ _ hlate hs
        · exact hend

end Hypertext.Timeline
