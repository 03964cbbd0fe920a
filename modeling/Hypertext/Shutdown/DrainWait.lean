/-
How the request that drains waits for the last connection, in single steps, and how a dropped guard wakes it. Wake-ups
are not kept for anybody: whoever waits has to be armed before the wake-up is given. So they are numbered here, and a
request that arms itself notes how many there have been.
-/
import Hypertext.Shutdown.Coordinator

namespace Hypertext

/-! ## Guards -/

/-- A connection's stay: its guard is held; or was dropped at some time as the last one, and those who wait are still to
be woken; or was dropped and nothing is left to do. -/
inductive Stay
  | held
  | rousing (dropped : Nat)
  | gone (dropped : Nat)
  deriving DecidableEq, Repr

namespace Stay

/-- When the guard was dropped. -/
def dropped : Stay → Option Nat
  | .held => none
  | .rousing dropped | .gone dropped => some dropped

def isHeld : Stay → Bool
  | .held => true
  | _ => false

def isRousing : Stay → Bool
  | .rousing _ => true
  | _ => false

/-- The guard is dropped and taken off the counter. If it was the last one those who wait are to be woken. -/
def drop (now : Nat) (c : Coordinator) : Stay → Option (Stay × Coordinator)
  | .held => some (if c.live = 1 then .rousing now else .gone now, c.release)
  | _ => none

/-- Those who wait have been woken. -/
def rouse : Stay → Option Stay
  | .rousing dropped => some (.gone dropped)
  | _ => none

end Stay

/-- Whether a call to register wakes those who wait: it is refused, and as it takes itself off the counter it is the last
one there. -/
def Coordinator.rouses (c : Coordinator) : Bool := !c.state.isRunning && c.live == 0

/-! ## Requests -/

/-- A request to shut down whose wait for the last connection is in single steps too. It arms itself; then it looks
whether anybody is live, and falls asleep if so. A wake-up that was given after it armed itself has it start again, and
the deadline ends its wait. -/
inductive WaitingCall
  | plain (call : ShutdownCall)
  | armed (deadline seen : Nat)
  | asleep (deadline seen : Nat)
  deriving DecidableEq, Repr

namespace WaitingCall

/-- The request without the steps of its wait. -/
def view : WaitingCall → ShutdownCall
  | .plain call => call
  | .armed deadline _ | .asleep deadline _ => .draining deadline

/-- One step of a request; none if it has to wait. -/
def step (now wakes : Nat) (c : Coordinator) : WaitingCall → Option (WaitingCall × Coordinator)
  | .plain (.draining deadline) => some (.armed deadline wakes, c)
  | .plain call => (call.step now c).map fun (next, d) => (.plain next, d)
  | .armed deadline seen => some (if c.live = 0 then .plain .counting else .asleep deadline seen, c)
  | .asleep deadline seen =>
    if wakes ≠ seen then some (.plain (.draining deadline), c)
    else if deadline ≤ now then some (.plain .counting, c)
    else none

variable {now wakes : Nat} {c d : Coordinator} {call next : WaitingCall}

/-- A request that does not wait for the last connection is as it was. -/
theorem step_plain {call : ShutdownCall} (h : call.isDraining = false) :
    (WaitingCall.plain call).step now wakes c = (call.step now c).map fun (next, d) => (.plain next, d) := by
  cases call with
  | draining deadline => cases h
  | _ => rfl

/-- What a step can be. -/
inductive Moves (now wakes : Nat) (c : Coordinator) : WaitingCall → WaitingCall → Coordinator → Prop
  | plain {call next : ShutdownCall} {d : Coordinator} (other : call.isDraining = false)
      (step : call.step now c = some (next, d)) : Moves now wakes c (.plain call) (.plain next) d
  | arm {deadline : Nat} : Moves now wakes c (.plain (.draining deadline)) (.armed deadline wakes) c
  | find {deadline seen : Nat} (empty : c.live = 0) : Moves now wakes c (.armed deadline seen) (.plain .counting) c
  | sleep {deadline seen : Nat} (live : 0 < c.live) :
      Moves now wakes c (.armed deadline seen) (.asleep deadline seen) c
  | wake {deadline seen : Nat} (woken : wakes ≠ seen) :
      Moves now wakes c (.asleep deadline seen) (.plain (.draining deadline)) c
  | expire {deadline seen : Nat} (due : deadline ≤ now) :
      Moves now wakes c (.asleep deadline seen) (.plain .counting) c

theorem moves_of_step (h : call.step now wakes c = some (next, d)) : Moves now wakes c call next d := by
  cases call with
  | plain call =>
    cases hdrains : call.isDraining with
    | true =>
      cases call with
      | draining deadline =>
        cases h
        exact .arm
      | _ => cases hdrains
    | false =>
      rw [step_plain hdrains] at h
      obtain ⟨⟨after, c'⟩, hafter, heq⟩ := Option.map_eq_some_iff.1 h
      cases heq
      exact .plain hdrains hafter
  | armed deadline seen =>
    obtain ⟨rfl, rfl⟩ := Prod.mk.inj (Option.some.inj h)
    split
    · next hempty => exact .find hempty
    · next hlive => exact .sleep (Nat.pos_of_ne_zero hlive)
  | asleep deadline seen =>
    rw [step] at h
    split at h
    · next hwoken =>
      cases h
      exact .wake hwoken
    · split at h
      · next hdue =>
        cases h
        exact .expire hdue
      · cases h

/-- Each step is one of the request without its wait, or belongs to the wait only and nobody else sees anything of it. -/
theorem view_step (h : call.step now wakes c = some (next, d)) :
    call.view.step now c = some (next.view, d) ∨ call.view.isDraining = true ∧ next.view = call.view ∧ d = c := by
  cases moves_of_step h with
  | plain _ hstep => exact .inl hstep
  | find hempty =>
    left
    simp [view, ShutdownCall.step, ShutdownCall.isOver, hempty]
  | expire hdue =>
    left
    simp [view, ShutdownCall.step, ShutdownCall.isOver, hdue]
  | arm | sleep | wake => exact .inr ⟨rfl, rfl, rfl⟩

end WaitingCall

end Hypertext
