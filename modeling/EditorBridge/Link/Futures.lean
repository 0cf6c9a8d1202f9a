/-
Futures, tasks and tokens of a link.
-/
import EditorBridge.Link.State

namespace EditorBridge.Link

/-- Changes the loop. -/
def onLoop (f : Loop Reply Callback Job → Loop Reply Callback Job) : Act Link Unit :=
  Act.change fun l => { l with loop := f l.loop }

/-- A new future. -/
def newFuture : Act Link FutureId := do
  let (f, loop) := (← Act.state).loop.create
  Act.change fun l => { l with loop }
  return f

/-- Queues a job. -/
def soon (j : Job) : Act Link Unit := onLoop (·.soon j)

/-- How a future ended, if it did. -/
def ending? (f : FutureId) : Act Link (Option (Ending Reply)) := return (← Act.state).loop.ending? f

/-- Whether a future ended. -/
def isDone (f : FutureId) : Act Link Bool := return (← Act.state).loop.done f

/-- Ends a future unless it ended before; the answer tells whether it did. -/
def settleOpen (f : FutureId) (e : Ending Reply) : Act Link Bool := do
  match (← Act.state).loop.settle? .call f e with
  | some loop =>
    Act.change fun l => { l with loop }
    return true
  | none => return false

/-- Ends a future that must not have ended before. -/
def settle (f : FutureId) (e : Ending Reply) : Act Link Unit := do
  if !(← settleOpen f e) then throw .settled

/-- Asks for a callback when a future ends. -/
def whenDone (f : FutureId) (k : Callback) : Act Link Unit := onLoop (·.whenDone .call f k)

/-- Takes a callback back. -/
def forget (f : FutureId) (k : Callback) : Act Link Unit := onLoop (·.forget f k)

/-- Asks for a job after a time. -/
def later (delay : Nat) (j : Job) : Act Link Nat := do
  let (n, loop) := (← Act.state).loop.later delay j
  Act.change fun l => { l with loop }
  return n

/-- Begins an activity on its own account. -/
def startTask (entry : Resumption) : Act Link TaskId := do
  let outcome ← newFuture
  let t := (← Act.state).tasks.size
  Act.change fun l => { l with tasks := l.tasks.push { rest := [entry], outcome } }
  soon (.step t)
  return t

/-- The future of the outcome of a task. -/
def outcomeOf (t : TaskId) : Act Link FutureId :=
  return ((← Act.state).tasks.getD t default).outcome

/-- Cancels a task: what it waits for is cancelled, and if that cannot be, the task is told
when it is its turn. -/
def cancelTask (t : TaskId) : Act Link Unit := do
  match (← Act.state).tasks[t]? with
  | none => return
  | some task =>
    if ← isDone task.outcome then return
    let cancelled ← match task.waitsFor with
      | some f => settleOpen f .cancelled
      | none => pure false
    if !cancelled then
      Act.change fun l => { l with
        tasks := l.tasks.setIfInBounds t { task with mustCancel := true } }

/-- A new token. -/
def newToken : Act Link TokenId := do
  let t := (← Act.state).tokens.size
  Act.change fun l => { l with tokens := l.tokens.push {} }
  return t

/-- Whether a token was cancelled. -/
def isCancelled (t : TokenId) : Act Link Bool :=
  return ((← Act.state).tokens.getD t default).requested

/-- Replaces a token. -/
def setToken (t : TokenId) (token : Token Notice) : Act Link Unit :=
  Act.change fun l => { l with tokens := l.tokens.setIfInBounds t token }

/-- A future that ends when another one does, but whose end means nothing to that one.  A
future that ended stands for itself. -/
def shield (inner : FutureId) : Act Link FutureId := do
  if ← isDone inner then return inner
  let outer ← newFuture
  whenDone inner (.copy outer)
  whenDone outer (.forgetCopy inner)
  return outer

/-- Goes on with a reply once a future ended, at once if it has. -/
def awaiting (f : FutureId) (rest : Resumption) (go : Except Failure Reply → Act Link Step) :
    Act Link Step := do
  match ← ending? f with
  | some e => go e.toExcept
  | none => return .wait f [rest]

/-- What a future that was given up comes to: its outcome, or the failure of being late. -/
def afterGivingUp (f : FutureId) (late : Bool) : Act Link Step := do
  match ← ending? f with
  | some .cancelled | none => throw (if late then .timedOut else .cancelled)
  | some e => if late then return .done (← Act.ofExcept e.toExcept) else throw .cancelled

/-- Goes on once a future that is given up has ended. -/
def givenUp (f waiter : FutureId) (timer : Option Nat) (late : Bool)
    (r : Except Failure Reply) : Act Link Step := do
  forget f (.release waiter)
  if let some n := timer then onLoop (·.dropTimer n)
  match r with
  | .error e => throw e
  | .ok _ => afterGivingUp f late

/-- Gives a future up: cancels it and waits for its end. -/
def giveUp (f : FutureId) (timer : Option Nat) (late : Bool) : Act Link Step := do
  let waiter ← newFuture
  whenDone f (.release waiter)
  let _ ← settleOpen f .cancelled
  awaiting waiter (.givenUp f waiter timer late) (givenUp f waiter timer late)

/-- Goes on once a future ended or its time is over. -/
def inTime (f waiter : FutureId) (timer : Nat) (r : Except Failure Reply) : Act Link Step := do
  let dropTimer : Act Link Unit := onLoop (·.dropTimer timer)
  match ← ending? f, r with
  | some e, .ok _ | some e, .error .cancelled =>
    dropTimer
    return .done (← Act.ofExcept e.toExcept)
  | none, .ok _ =>
    forget f (.release waiter)
    giveUp f (some timer) true
  | none, .error .cancelled =>
    forget f (.release waiter)
    giveUp f (some timer) false
  | _, .error e =>
    dropTimer
    throw e

/-- Waits for a future, but no longer than a time.  A future that is late is given up. -/
def waitFor (f : FutureId) (timeout : Option Int) : Act Link Step := do
  match timeout with
  | none => awaiting f .reply fun r => return .done (← Act.ofExcept r)
  | some time =>
    if time ≤ 0 then
      match ← ending? f with
      | some e => return .done (← Act.ofExcept e.toExcept)
      | none => giveUp f none true
    else
      let waiter ← newFuture
      let timer ← later time.toNat (.release waiter)
      whenDone f (.release waiter)
      awaiting waiter (.inTime f waiter timer) (inTime f waiter timer)

end EditorBridge.Link
