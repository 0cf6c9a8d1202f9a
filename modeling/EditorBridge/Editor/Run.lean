/-
Running what is to be done.

A turn of the loop does the next job: it lets an activity go on until it has to wait, or
tells somebody that a future ended.  A failure of a job concerns nobody else, unless it
asks for the end of the program.
-/
import EditorBridge.Script.Player

namespace EditorBridge.Workbench

/-- Goes on with a reply. -/
def resume (k : Resumption) (r : Except Failure Reply) : Act Workbench Step :=
  let begin (a : Act Workbench Step) : Act Workbench Step := do
    let _ ← Act.ofExcept r
    a
  match k with
  | .traced l call => Step.afterCall l call r
  | .inTime f waiter timer => onLink (Link.inTime f waiter timer r)
  | .givenUp f waiter timer late => onLink (Link.givenUp f waiter timer late r)
  | .reply => return .done (← Act.ofExcept r)
  | .start => begin (onLink Link.tracedStart)
  | .spawned p exited => onLink (Link.whenSpawned p exited r)
  | .greet => begin (onLink Link.greet)
  | .greeted ready => onLink (Link.greeted ready r)
  | .await => begin (onLink Link.ready)
  | .stop arguments timeout => begin (onLink (Link.tracedStop arguments timeout))
  | .shutDown p exited timeout => onLink (Link.shutDown p exited timeout r)
  | .leaving p exited => onLink (Link.leaving p exited r)
  | .left => onLink (Link.left r)
  | .restart => begin (onLink Link.restart)
  | .restarted => onLink (Link.restarted r)
  | .activate => begin tracedActivate
  | .cleared => cleared r
  | .started => started r
  | .ready => ready r
  | .failed f => failed f r
  | .deactivate => begin tracedDeactivate
  | .stopped => stopped r
  | .answered method token => onLink (Query.answered method token r)
  | .converted q => Query.converted q r
  | .askHover q => begin (askHover q)
  | .hovers soFar rest q => do moreHovers q (addHover soFar (← Act.ofExcept r)) rest
  | .askCompletion q trigger => begin (askCompletion q trigger)
  | .completions soFar rest q => do
    moreCompletions q (addCompletions soFar (← Act.ofExcept r)) rest
  | .askProxy n kind d p token => begin (askProxy n kind d p token)
  | .play steps => begin (play steps)
  | .waited s rest => waited s rest r
  | .interrupting token answer s uri rest => interrupt token answer s uri rest r
  | .queried s uri rest => queried s uri rest r
  | .session steps => begin (session steps)
  | .sessionActive steps => sessionActive steps r
  | .sessionPlayed => sessionPlayed r
  | .sessionOver outcome => sessionOver outcome r

/-- Goes on as far as possible. -/
def resumeAll : List Resumption → Except Failure Reply → Act Workbench Step
  | [], r => return .done (← Act.ofExcept r)
  | k :: ks, r => do
    match ← Act.outcome (resume k r) with
    | .ok (.done reply) => resumeAll ks (.ok reply)
    | .error f => resumeAll ks (.error f)
    | .ok (.wait f more) => return .wait f (more ++ ks)
    | .ok (.turn more) => return .turn (more ++ ks)

def onTask (t : TaskId) (f : Task → Task) : Act Workbench Unit :=
  onLink (Act.change fun l => { l with tasks := l.tasks.modify t f })

/-- What a task goes on with: the outcome of what it waited for, unless it was cancelled. -/
def wakeUp (t : Task) : Act Workbench (Except Failure Reply) := do
  if t.mustCancel then return .error .cancelled
  match t.waitsFor with
  | none => return .ok .nothing
  | some f => return ((← onLink (Link.ending? f)).getD .cancelled).toExcept

/-- Ends a task.  A failure that asks for the end of the program is passed on. -/
def endTask (outcome : FutureId) (r : Except Failure Reply) : Act Workbench Unit := do
  let e : Ending Reply := match r with
    | .ok reply => .result reply
    | .error f => if f.isCancelled then .cancelled else .failed f
  let _ ← onLink (Link.settleOpen outcome e)
  if let .error f := r then
    if f.isExit then throw f

/-- Lets a task wait for a future; if it was cancelled in the meantime, the future is, too. -/
def suspend (t : TaskId) (f : FutureId) (rest : List Resumption) : Act Workbench Unit := do
  onTask t fun task => { task with rest, waitsFor := some f }
  onLink (Link.whenDone f (.wake t))
  if ((← Act.state).link.tasks.getD t default).mustCancel then
    if ← onLink (Link.settleOpen f .cancelled) then
      onTask t fun task => { task with mustCancel := false }

/-- Lets a task go on. -/
def stepTask (t : TaskId) : Act Workbench Unit := do
  let task := (← Act.state).link.tasks.getD t default
  if ← onLink (Link.isDone task.outcome) then return
  let r ← wakeUp task
  onTask t fun task => { task with waitsFor := none, mustCancel := false }
  match ← Act.outcome (resumeAll task.rest r) with
  | .ok (.done reply) =>
    if ((← Act.state).link.tasks.getD t default).mustCancel then
      endTask task.outcome (.error .cancelled)
    else endTask task.outcome (.ok reply)
  | .error f => endTask task.outcome (.error f)
  | .ok (.wait f rest) => suspend t f rest
  | .ok (.turn rest) =>
    onTask t fun task => { task with rest }
    onLink (Link.soon (.step t))

/-- A future ends like another one did. -/
def copyEnding (source target : FutureId) : Act Link Unit := do
  if let some e ← Link.ending? source then
    let _ ← Link.settleOpen target e

/-- Tells somebody that a future ended. -/
def callBack (k : Callback) (f : FutureId) : Act Workbench Unit :=
  match k with
  | .wake t => stepTask t
  | .release waiter => onLink do let _ ← Link.settleOpen waiter (.result .nothing)
  | .copy outer => onLink (copyEnding f outer)
  | .forgetCopy inner => onLink (Link.forget inner (.copy f))
  | .unregister t n => onLink do
    Link.setToken t (((← Act.state).tokens.getD t default).unregister n)
  | .formatted uri => do
    if let some e ← onLink (Link.ending? f) then Relay.formatted uri e
  | .pass target => onLink (copyEnding f target)
  | .gone => serverGone f

/-- Does a job. -/
def doJob : Job → Act Workbench Unit
  | .step t => stepTask t
  | .call k f => callBack k f
  | .release f => onLink do let _ ← Link.settleOpen f (.result .nothing)
  | .react p script id => onLink (Link.react p script id)
  | .die p code => onLink (Link.die p code)

/-- Does a job; its failure concerns nobody else. -/
def attempt (j : Job) : Act Workbench Unit := do
  if let .error f ← Act.outcome (doJob j) then
    if f.isExit then throw f

/-- Does what there is to do, but no more than so many jobs. -/
def settle : Nat → Act Workbench Unit
  | 0 => return
  | n + 1 => do
    match (← Act.state).link.loop.next? with
    | none => return
    | some (j, loop) =>
      onLink (Act.change fun l => { l with loop })
      attempt j
      settle n

/-- How many jobs are done at most before somebody looks. -/
def patience : Nat := 100000

/-- Does everything that there is to do now. -/
def run : Act Workbench Unit := settle patience

/-- Does everything until a time, as the clock goes. -/
def runUntil (time : Nat) : Nat → Act Workbench Unit
  | 0 => return
  | n + 1 => do
    run
    match (← Act.state).link.loop.nextDue? with
    | some due =>
      if due ≤ time then
        onLink (Link.onLoop (·.advanceTo due))
        runUntil time n
      else onLink (Link.onLoop (·.advanceTo time))
    | none => onLink (Link.onLoop (·.advanceTo time))

/-- Lets some time pass. -/
def advance (nanoseconds : Nat) : Act Workbench Unit := do
  runUntil ((← Act.state).link.loop.now + nanoseconds) patience

/-- Does everything until a future has ended; the clock jumps to the next timer whenever there
is nothing else to do. -/
def runUntilDone (f : FutureId) : Nat → Act Workbench Unit
  | 0 => return
  | n + 1 => do
    run
    if ← onLink (Link.isDone f) then return
    match (← Act.state).link.loop.nextDue? with
    | some due =>
      onLink (Link.onLoop (·.advanceTo due))
      runUntilDone f n
    | none => return

/-- Begins an activity and does everything until it has ended. -/
def complete (entry : Resumption) : Act Workbench Reply := do
  let t ← onLink (Link.startTask entry)
  let f ← onLink (Link.outcomeOf t)
  runUntilDone f patience
  match ← onLink (Link.ending? f) with
  | some e => Act.ofExcept e.toExcept
  | none => throw .timedOut

end EditorBridge.Workbench
