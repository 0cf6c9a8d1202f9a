/-
Futures, timers and the queue of what is to be done.

A future ends once: with a result, with a failure, or cancelled.  What is to be done
about it then is queued in the order in which it was asked for.  The queue is worked off
first in, first out; timers join it when their time has come, the earliest first.
-/
import EditorBridge.Failure

namespace EditorBridge

/-- The number of a future. -/
abbrev FutureId := Nat

/-- The number of a task. -/
abbrev TaskId := Nat

/-- How a future ended. -/
inductive Ending (α : Type) where
  | result (a : α)
  | failed (f : Failure)
  | cancelled
  deriving Repr

namespace Ending

/-- What somebody who waits for a future gets. -/
def toExcept {α : Type} : Ending α → Except Failure α
  | result a => .ok a
  | failed f => .error f
  | cancelled => .error .cancelled

/-- The ending with such an outcome. -/
def ofExcept {α : Type} : Except Failure α → Ending α
  | .ok a => result a
  | .error f => failed f

end Ending

/-- A future with callbacks of type `κ`. -/
structure Future (α κ : Type) where
  ending : Option (Ending α) := none
  callbacks : List κ := []
  deriving Repr, Inhabited

/-- Something that is to be done at a time, in nanoseconds. -/
structure Timer (ω : Type) where
  number : Nat
  due : Nat
  job : ω
  deriving Repr

/-- Futures with results of type `α` and callbacks of type `κ`, and jobs of type `ω`. -/
structure Loop (α κ ω : Type) where
  now : Nat := 0
  futures : Array (Future α κ) := #[]
  ready : List ω := []
  timers : List (Timer ω) := []
  timerCount : Nat := 0
  deriving Repr, Inhabited

namespace Loop

variable {α κ ω : Type}

/-- A new future. -/
def create (l : Loop α κ ω) : FutureId × Loop α κ ω :=
  (l.futures.size, { l with futures := l.futures.push {} })

/-- How a future ended, if it did. -/
def ending? (l : Loop α κ ω) (f : FutureId) : Option (Ending α) :=
  (l.futures[f]?).bind (·.ending)

/-- Whether a future ended. -/
def done (l : Loop α κ ω) (f : FutureId) : Bool := (l.ending? f).isSome

/-- Queues a job. -/
def soon (job : ω) (l : Loop α κ ω) : Loop α κ ω := { l with ready := l.ready ++ [job] }

/-- Ends a future and queues its callbacks; `none` if it had ended before. -/
def settle? (toJob : κ → FutureId → ω) (f : FutureId) (e : Ending α) (l : Loop α κ ω) :
    Option (Loop α κ ω) :=
  match l.futures[f]? with
  | none => none
  | some fut =>
    if fut.ending.isSome then none
    else some { l with
      futures := l.futures.setIfInBounds f { ending := some e }
      ready := l.ready ++ fut.callbacks.map (toJob · f) }

/-- Asks for a callback when a future ends; it is queued at once if it has. -/
def whenDone (toJob : κ → FutureId → ω) (f : FutureId) (k : κ) (l : Loop α κ ω) : Loop α κ ω :=
  match l.futures[f]? with
  | none => l
  | some fut =>
    if fut.ending.isSome then l.soon (toJob k f)
    else
      let fut := { fut with callbacks := fut.callbacks ++ [k] }
      { l with futures := l.futures.setIfInBounds f fut }

/-- Takes back what was asked for. -/
def forget [DecidableEq κ] (f : FutureId) (k : κ) (l : Loop α κ ω) : Loop α κ ω :=
  match l.futures[f]? with
  | none => l
  | some fut =>
    let fut := { fut with callbacks := fut.callbacks.filter (· ≠ k) }
    { l with futures := l.futures.setIfInBounds f fut }

/-- Puts a timer behind those that are due no later. -/
def insertTimer (t : Timer ω) : List (Timer ω) → List (Timer ω)
  | [] => [t]
  | u :: us => if t.due < u.due then t :: u :: us else u :: insertTimer t us

/-- Asks for a job after a delay; the number names the timer. -/
def later (delay : Nat) (job : ω) (l : Loop α κ ω) : Nat × Loop α κ ω :=
  (l.timerCount, { l with
    timers := insertTimer ⟨l.timerCount, l.now + delay, job⟩ l.timers
    timerCount := l.timerCount + 1 })

/-- Stops a timer. -/
def dropTimer (n : Nat) (l : Loop α κ ω) : Loop α κ ω :=
  { l with timers := l.timers.filter (·.number ≠ n) }

/-- The next job, and the loop without it. -/
def next? (l : Loop α κ ω) : Option (ω × Loop α κ ω) :=
  match l.ready with
  | [] => none
  | j :: js => some (j, { l with ready := js })

/-- When the next timer is due. -/
def nextDue? (l : Loop α κ ω) : Option Nat := l.timers.head?.map (·.due)

/-- Lets the time come, and queues the jobs that are due by then. -/
def advanceTo (time : Nat) (l : Loop α κ ω) : Loop α κ ω :=
  let (due, rest) := l.timers.span fun t => t.due ≤ time
  { l with now := max l.now time, timers := rest, ready := l.ready ++ due.map (·.job) }

end Loop

end EditorBridge
