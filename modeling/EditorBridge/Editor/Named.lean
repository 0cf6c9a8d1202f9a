/-
A bridge whose parts have names.

Whoever drives a bridge from outside names what it starts, opens and registers, and speaks
of it by these names later.  A name that is given again stands for the new thing.  What
was started is reported once, when it has ended.
-/
import EditorBridge.Editor.Run

namespace EditorBridge

/-- Gives a name to something. -/
def named {α : Type} (name : String) (a : α) (names : List (String × α)) : List (String × α) :=
  names.filter (·.1 ≠ name) ++ [(name, a)]

/-- Something that was started: its future, and whether its end was reported. -/
structure Started where
  future : FutureId
  reported : Bool := false
  deriving Repr, Inhabited

/-- A bridge and the names of its parts. -/
structure Bench where
  bench : Workbench
  started : List (String × Started) := []
  tasks : List (String × TaskId) := []
  tokens : List (String × TokenId) := []
  documents : List (String × DocumentId) := []
  observers : List (String × Nat) := []
  informants : List (String × Query × Registration) := []

namespace Bench

variable {α : Type}

/-- What a name stands for. -/
def stands (names : Bench → List (String × α)) (name : String) : Act Bench α := do
  match (names (← Act.state)).lookup name with
  | some a => return a
  | none => throw (.unknownName name)

def onBench (a : Act Workbench α) : Act Bench α :=
  Act.on (·.bench) (fun w b => { b with bench := w }) a

def onLink (a : Act Link α) : Act Bench α := onBench (Workbench.onLink a)

/-- Does something, and then everything that there is to do because of it. -/
def settled (a : Act Bench α) : Act Bench α := do
  let r ← Act.outcome a
  onBench Workbench.run
  Act.ofExcept r

/-- Names a future whose end is to be reported. -/
def follow (name : String) (future : FutureId) : Act Bench Unit :=
  Act.change fun b => { b with started := named name { future } b.started }

/-- Begins an activity of that name. -/
def begin (name : String) (entry : Resumption) : Act Bench Unit := do
  let t ← onLink (Link.startTask entry)
  Act.change fun b => { b with tasks := named name t b.tasks }
  follow name (← onLink (Link.outcomeOf t))

/-- Cancels an activity. -/
def cancelTask (name : String) : Act Bench Unit := do onLink (Link.cancelTask (← stands tasks name))

/-- Cancels a future. -/
def cancelFuture (name : String) : Act Bench Unit := do
  let s ← stands started name
  let _ ← onLink (Link.settleOpen s.future .cancelled)

/-- The outcomes of what has ended since they were last reported. -/
def report : Act Bench (List (String × Except Failure Reply)) := do
  let b ← Act.state
  let loop := b.bench.link.loop
  Act.change fun b => { b with started := b.started.map fun (k, s) =>
    (k, { s with reported := s.reported || loop.done s.future }) }
  return b.started.filterMap fun (k, s) =>
    if s.reported then none else (loop.ending? s.future).map fun e => (k, e.toExcept)

/-- The token of a name, which is made when it is named first. -/
def token (name : String) : Act Bench TokenId := do
  match (← Act.state).tokens.lookup name with
  | some t => return t
  | none =>
    let t ← onLink Link.newToken
    Act.change fun b => { b with tokens := named name t b.tokens }
    return t

/-- Cancels a token. -/
def cancelToken (name : String) : Act Bench Unit := do onLink (Link.cancelToken (← token name))

/-- A document as it is now. -/
def document (d : DocumentId) : Act Bench Document := onBench (Workbench.document d)

/-- Opens a document; without a name of its own it goes by its uri. -/
def openDocument (name : Option String) (o : Workbench.Opening) : Act Bench DocumentId := do
  let d ← onBench (Workbench.openDocument o)
  let name := name.getD (← document d).identity
  Act.change fun b => { b with documents := named name d b.documents }
  return d

/-- The listeners of an event. -/
def onOccasion (o : Occasion) (f : Event Listener → Event Listener) : Act Bench Unit :=
  onBench (Act.change fun w => match o with
    | .opened => { w with onOpen := f w.onOpen }
    | .changed => { w with onChange := f w.onChange }
    | .saved => { w with onSave := f w.onSave }
    | .closed => { w with onClose := f w.onClose })

/-- Lets an observer hear no more. -/
def dismiss (n : Nat) : Act Bench Unit := onBench (Workbench.onListeners (·.remove (.external n)))

/-- Lets a new observer hear of something; an earlier one of the name hears no more. -/
def observe (o : Occasion) (observer : Observer) : Act Bench Unit := do
  if let some n := (← Act.state).observers.lookup observer.name then dismiss n
  let n := (← Act.state).bench.observers.size
  onBench (Act.change fun w => { w with observers := w.observers.push observer })
  Act.change fun b => { b with observers := named observer.name n b.observers }
  onOccasion o (·.add (.external n))

/-- Registers a new informant. -/
def consult (q : Query) (informant : Informant) (selector : Selector) (triggers : List String) :
    Act Bench Unit := do
  let n := (← Act.state).bench.informants.size
  let r : Registration := ⟨selector, .external n, triggers⟩
  onBench (Act.change fun w => { w with informants := w.informants.push informant })
  onBench (Workbench.register q r)
  Act.change fun b => { b with informants := named informant.name (q, r) b.informants }

/-- Takes the registration of an informant away. -/
def dispose (name : String) : Act Bench Unit := do
  let (q, r) ← stands informants name
  onBench (Workbench.unregister q r)

/-- What was noted since it was last taken. -/
def takeSightings : Act Bench (List Sighting) := do
  let w := (← Act.state).bench
  onBench (Act.change fun w => { w with sightings := [] })
  return w.sightings

/-- The messages that the recorder took since they were last taken. -/
def takeNotes : Act Bench (List Note) := do
  let notes := (← Act.state).bench.link.recorder.notes
  onLink (Link.onRecorder fun r => { r with notes := [] })
  return notes

/-- The state below the editor, from which what was noted about it is taken. -/
def takeLink : Act Bench Link := do
  let l := (← Act.state).bench.link
  onLink (Act.change fun l => { l with
    written := [], calls := [], spawned := [], orders := [], stops := 0 })
  return l

/-- What was written to the last process. -/
def sent (l : Link) : List String :=
  l.written.filterMap fun f => if f.process = some (l.processes.size - 1) then some f.text else none

/-- What was asked of the last process. -/
def asked (l : Link) : List String :=
  l.orders.filterMap fun o => if o.1 = l.processes.size - 1 then some o.2 else none

/-- An act on the tracker that is in use. -/
def onTracker (part : String) (a : Act (Tracker × Link) α) : Act Bench α := do
  onBench (Workbench.onTracker (← onBench (Workbench.theTracker part)) a)

/-- Asks the query proxy that is in use. -/
def askProxy (name : String) (q : Query) (d : DocumentId) (p : Position) (t : Option TokenId) :
    Act Bench Unit := do
  let part := match q with
    | .hover => "hover"
    | .completion => "completion"
  begin name (.askProxy (← onBench (Workbench.theProxy part)) q d p t)

/-- The last server process. -/
def lastProcess (part : String) : Act Bench ProcessId := do
  match (← Act.state).bench.link.processes.size with
  | 0 => throw (.noAttribute "NoneType" part)
  | n + 1 => return n

end Bench

end EditorBridge
