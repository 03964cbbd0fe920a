/-
Tasks in time. A task that has been woken takes its turn after those woken before it; a task may also have a timer
that wakes it. Time passes only when no task is ready, and then to the next timer.
-/

namespace Hypertext

/-- A task will be woken at a time; of timers due at one time the one armed first goes first. -/
structure Timer (τ : Type) where
  due : Nat
  order : Nat
  task : τ

/-- The time, the tasks that are ready, and the timers. -/
structure Timeline (τ : Type) where
  now : Nat
  nextOrder : Nat
  ready : List τ
  timers : List (Timer τ)

namespace Timeline

variable {τ : Type} [BEq τ]

/-- The start of time, with nothing to do. -/
def start : Timeline τ := ⟨0, 0, [], []⟩

/-- Makes a task ready, if it is not. -/
def wake (task : τ) (t : Timeline τ) : Timeline τ :=
  if t.ready.contains task then t else { t with ready := t.ready ++ [task] }

def wakeAll (tasks : List τ) (t : Timeline τ) : Timeline τ := tasks.foldl (fun t task => t.wake task) t

/-- Sets the timer of a task, or takes it away. A timer that is set for that time already keeps its place. -/
def schedule (due : Option Nat) (task : τ) (t : Timeline τ) : Timeline τ :=
  let others := t.timers.filter fun timer => !(timer.task == task)
  match due with
  | none => { t with timers := others }
  | some due =>
    if t.timers.any fun timer => timer.task == task && timer.due == due then t
    else { t with nextOrder := t.nextOrder + 1, timers := others ++ [⟨due, t.nextOrder, task⟩] }

/-- The time of the next timer. -/
def nextDue? (t : Timeline τ) : Option Nat := (t.timers.map (·.due)).min?

/-- Moves to a time and wakes the tasks whose timers are due, in the order of their timers. -/
def moveTo (time : Nat) (t : Timeline τ) : Timeline τ :=
  let due := t.timers.filter fun timer => timer.due ≤ time
  let inOrder := due.mergeSort fun a b => a.due < b.due || (a.due == b.due && a.order ≤ b.order)
  let moved : Timeline τ := { t with now := time, timers := t.timers.filter fun timer => time < timer.due }
  moved.wakeAll (inOrder.map fun timer => timer.task)

/-- The task whose turn it is, and the others. -/
def next? (t : Timeline τ) : Option (τ × Timeline τ) :=
  match t.ready with
  | [] => none
  | task :: rest => some (task, { t with ready := rest })

/-! ## Running -/

/-- Gives every ready task its turn and goes from timer to timer, up to a time. A turn changes a state. -/
def runUntil {σ : Type} (turn : τ → Timeline τ → σ → Timeline τ × σ) (time : Nat) :
    (turns : Nat) → Timeline τ → σ → Timeline τ × σ
  | 0, t, s => (t, s)
  | n + 1, t, s =>
    match t.next? with
    | some (task, t) =>
      let (t, s) := turn task t s
      runUntil turn time n t s
    | none =>
      match t.nextDue? with
      | some due => if due ≤ time then runUntil turn time n (t.moveTo due) s else (t.moveTo time, s)
      | none => (t.moveTo time, s)

end Timeline

end Hypertext
