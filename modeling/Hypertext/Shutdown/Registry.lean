/-
A coordinator with the guards of its connections and the calls to shut it down, in time. A guard stands for a live
connection; it is released at once or after a while.
-/
import Hypertext.Shutdown.Coordinator
import Hypertext.Time.Timeline

namespace Hypertext

/-- What goes on: a guard is to be released, or a call shuts down. -/
inductive GuardTask
  | release (i : Nat) (due : Nat)
  | call (k : Nat)
  deriving DecidableEq, Repr

/-- A guard is held, or held until a time to come, or there is none any more. -/
inductive Guard
  | held
  | leaving
  | gone
  deriving DecidableEq, Repr

/-- The coordinator, the guards by the order of registering (a refused one is gone), and the calls. -/
structure GuardBook where
  coordinator : Coordinator
  guards : List Guard
  calls : List ShutdownCall

namespace GuardBook

/-- All calls as tasks. -/
def callTasks (b : GuardBook) : List GuardTask := (List.range b.calls.length).map .call

/-- The guard with this number. -/
def guardOf (i : Nat) (b : GuardBook) : Guard := b.guards.getD i .gone

/-- Releases a guard that there is; when the last one goes the calls look again. -/
def release (i : Nat) (t : Timeline GuardTask) (b : GuardBook) : Timeline GuardTask × GuardBook :=
  if b.guardOf i = .gone then (t, b)
  else
    let coordinator := b.coordinator.release
    (if coordinator.live = 0 then t.wakeAll b.callTasks else t,
      { b with coordinator, guards := b.guards.set i .gone })

/-- A call goes on; when the state changes all calls look again. -/
def goOn (k : Nat) (call : ShutdownCall) (t : Timeline GuardTask) (b : GuardBook) : Timeline GuardTask × GuardBook :=
  let (next, coordinator) := call.run t.now b.coordinator
  let t := if coordinator.state = b.coordinator.state then t else t.wakeAll b.callTasks
  (t.schedule next.deadline? (.call k), { b with coordinator, calls := b.calls.set k next })

def turn (task : GuardTask) (t : Timeline GuardTask) (b : GuardBook) : Timeline GuardTask × GuardBook :=
  match task with
  | .release i due => if due ≤ t.now then b.release i t else (t.schedule (some due) task, b)
  | .call k =>
    match b.calls[k]? with
    | none => (t, b)
    | some call => b.goOn k call t

end GuardBook

/-- Registered connections in time. -/
structure Registry where
  timeline : Timeline GuardTask
  book : GuardBook

namespace Registry

def start : Registry := ⟨.start, ⟨.start, [], []⟩⟩

/-- Registers a connection; its guard is held if it is accepted. -/
def register (r : Registry) : Option ConnectionId × Registry :=
  let (id, coordinator) := r.book.coordinator.register
  let guards := r.book.guards ++ [if id.isSome then .held else .gone]
  (id, { r with book := { r.book with coordinator, guards } })

/-- Releases a guard that is held. -/
def release (i : Nat) (r : Registry) : Registry :=
  if r.book.guardOf i = .held then
    let (timeline, book) := r.book.release i r.timeline
    { timeline, book }
  else r

/-- Has a guard that is held released after a while. -/
def releaseAfter (i ms : Nat) (r : Registry) : Registry :=
  if r.book.guardOf i = .held then
    { timeline := r.timeline.wake (.release i (r.timeline.now + ms))
      book := { r.book with guards := r.book.guards.set i .leaving } }
  else r

def shutDown (grace : Nat) (r : Registry) : Registry where
  timeline := r.timeline.wake (.call r.book.calls.length)
  book := { r.book with calls := r.book.calls ++ [.fresh grace] }

/-- Lets time pass. Every task has a few turns for each call and each guard. -/
def pass (ms : Nat) (r : Registry) : Registry :=
  let tasks := r.timeline.ready.length + r.timeline.timers.length + r.book.calls.length + 1
  let (timeline, book) := r.timeline.runUntil GuardBook.turn (r.timeline.now + ms) (8 * tasks * tasks) r.book
  { timeline, book }

end Registry

end Hypertext
