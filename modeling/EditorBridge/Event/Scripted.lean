/-
Listeners that follow a script.

A listener notes that it was called, does what its script says, to the same event if
need be, and then answers or fails.  The event holds its listeners only as long as
somebody else does: the table of names, or a dispatch that is going on.  A dispatch holds
the listener that it called last until it calls another one, and those that have failed
until it is over.
-/
import EditorBridge.Event.Basic

namespace EditorBridge.Event

/-- What a script can do. -/
inductive Action where
  /-- Gives a name to a new listener, which answers or fails after its own script. -/
  | define (name : String) (answer : Value) (failure : Option Failure) (script : List Action)
  /-- Gives a name to a new object with two listeners, called by that name and their own. -/
  | defineObject (name : String) (parts : List (String × Value × Option Failure × List Action))
  | add (name : String)
  | remove (name : String)
  | contains (name : String)
  /-- Lets go of what a name stands for. -/
  | drop (name : String)
  | clear
  | call (arguments : Value) (named : Value)
  deriving Repr, Inhabited

/-- What an action answers. -/
inductive Answer where
  | nothing
  | flag (b : Bool)
  | results (rs : List (Except Failure Value))
  deriving Inhabited

/-- How a listener behaves. -/
structure Behaviour where
  answer : Value
  failure : Option Failure
  script : List Action

/-- A listener: the object it belongs to, and its name. -/
structure Listener where
  owner : Nat
  name : String
  deriving DecidableEq, Repr, Inhabited

/-- What a dispatch that is going on holds. -/
structure Hold where
  /-- The object of the listener that was called last. -/
  last : Option Nat := none
  /-- The objects of the listeners that have failed: a failure keeps what it comes from. -/
  failed : List Nat := []
  deriving Repr, Inhabited

/-- Whether a dispatch holds an object. -/
def Hold.has (h : Hold) (owner : Nat) : Bool := h.last == some owner || h.failed.contains owner

/-- An event with scripted listeners. -/
structure Session where
  event : Event Listener := {}
  /-- What names stand for. -/
  names : List (String × Nat) := []
  behaviours : List (Listener × Behaviour) := []
  /-- What the dispatches hold that are going on, the innermost first. -/
  going : List Hold := []
  /-- How many objects there have been. -/
  count : Nat := 0
  /-- The calls so far: the name of the listener and the arguments. -/
  calls : List (String × Value × Value) := []

namespace Session

/-- Whether somebody holds a listener. -/
def holds (s : Session) (k : Listener) : Bool :=
  s.names.any (·.2 == k.owner) || s.going.any (·.has k.owner)

/-- Forgets the listeners that nobody holds. -/
def sweep (s : Session) : Session := { s with event := s.event.retain s.holds }

/-- Gives a name to a new object with these listeners. -/
def introduce (name : String) (parts : List (String × Behaviour)) (s : Session) : Session :=
  sweep { s with
    names := s.names.filter (·.1 ≠ name) ++ [(name, s.count)]
    behaviours := s.behaviours ++ parts.map fun p => (⟨s.count, p.1⟩, p.2)
    count := s.count + 1 }

/-- Lets go of what a name stands for. -/
def drop (name : String) (s : Session) : Session :=
  sweep { s with names := s.names.filter (·.1 ≠ name) }

/-- A dispatch begins. -/
def begin (s : Session) : Session := { s with going := {} :: s.going }

/-- A listener is called, and the one that was called before it is let go. -/
def enter (arguments named : Value) (k : Listener) (s : Session) : Session :=
  sweep { s with
    calls := s.calls ++ [(k.name, arguments, named)]
    going := s.going.modifyHead fun h => { h with last := some k.owner } }

/-- A listener has failed. -/
def fail (k : Listener) (s : Session) : Session :=
  { s with going := s.going.modifyHead fun h => { h with failed := k.owner :: h.failed } }

/-- A dispatch is over, and what it held is let go. -/
def finish (s : Session) : Session := sweep { s with going := s.going.tail }

/-- How a listener behaves. -/
def behaviour (s : Session) (k : Listener) : Behaviour :=
  (s.behaviours.lookup k).getD ⟨.null, none, []⟩

/-- The listener of a name. -/
def find (name : String) : Act Session Listener := do
  let owner := (name.splitOn ".").headD name
  match (← Act.state).names.lookup owner with
  | some i => return ⟨i, name⟩
  | none => throw (.unknownName owner)

end Session

open Session

/-- Calls a listener: it does what its script says, and then it answers or fails. -/
def respond (act : Action → Act Session Answer) (arguments named : Value) (k : Listener) :
    Act Session Value := do
  Act.change (enter arguments named k)
  let b := (← Act.state).behaviour k
  let r ← Act.outcome do
    for a in b.script do
      let _ ← act a
    if let some f := b.failure then throw f
    return b.answer
  if let .error _ := r then Act.change (fail k)
  Act.ofExcept r

/-- Calls the event. -/
def callEvent (act : Action → Act Session Answer) (arguments named : Value) :
    Act Session Answer := do
  Act.change begin
  let s ← Act.state
  let r ← Act.outcome
    (s.event.dispatch (fun k => return (← Act.state).holds k) (respond act arguments named))
  Act.change finish
  return .results (← Act.ofExcept r)

/-- Does what an action says, given what a call does. -/
def performWith (call : Value → Value → Act Session Answer) : Action → Act Session Answer
  | .define name answer failure script => do
    Act.change (introduce name [(name, ⟨answer, failure, script⟩)])
    return .nothing
  | .defineObject name parts => do
    Act.change (introduce name (parts.map fun p => (name ++ "." ++ p.1, ⟨p.2.1, p.2.2.1, p.2.2.2⟩)))
    return .nothing
  | .add name => do
    let k ← find name
    Act.change fun s => { s with event := s.event.add k }
    return .nothing
  | .remove name => do
    let k ← find name
    Act.change fun s => { s with event := s.event.remove k }
    return .nothing
  | .contains name => do
    let k ← find name
    return .flag ((← Act.state).event.contains k)
  | .drop name => do
    if ((← Act.state).names.lookup name).isNone then throw (.unknownName name)
    Act.change (drop name)
    return .nothing
  | .clear => do
    Act.change fun s => { s with event := {} }
    return .nothing
  | .call arguments named => call arguments named

/-- Does what an action says; `depth` limits how deeply calls may be nested. -/
def perform : Nat → Action → Act Session Answer
  | 0 => performWith fun _ _ => throw (.raised "RecursionError" "maximum recursion depth exceeded")
  | depth + 1 => performWith (callEvent (perform depth))

end EditorBridge.Event
