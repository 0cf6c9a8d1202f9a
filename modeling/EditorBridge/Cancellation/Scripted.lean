/-
Callbacks that follow a script.

A callback notes that it was called, does what its script says, to the same token if
need be, and then fails if it is meant to.
-/
import EditorBridge.Cancellation.Token

namespace EditorBridge.Token

/-- What a script can do. -/
inductive Action where
  /-- Gives a name to a new callback, which may fail after its own script. -/
  | define (name : String) (failure : Option Failure) (script : List Action)
  /-- Registers a callback and keeps its registration under a name. -/
  | register (name registration : String)
  | unregister (registration : String)
  | cancel
  deriving Repr, Inhabited

/-- A callback: its name, its failure and its script. -/
structure Callback where
  name : String
  failure : Option Failure
  script : List Action

/-- A token with scripted callbacks, which are known by number. -/
structure Session where
  token : Token Nat := {}
  callbacks : Array Callback := #[]
  /-- What the names of callbacks stand for. -/
  names : List (String × Nat) := []
  /-- The registrations; none if there is nothing to take away. -/
  registrations : List (String × Option Nat) := []
  /-- The names of the callbacks that were called. -/
  calls : List String := []

/-- The callback of a number. -/
def Session.callback (s : Session) (i : Nat) : Callback := s.callbacks.getD i ⟨"", none, []⟩

/-- Puts an entry in front of the others of its name. -/
def name {α : Type} (key : String) (a : α) (names : List (String × α)) : List (String × α) :=
  (key, a) :: names.filter (·.1 ≠ key)

/-- Calls a callback: it does what its script says, and then it fails if it is meant to. -/
def respond (act : Action → Act Session Unit) (i : Nat) : Act Session Unit :=
  Token.call do
    let c := (← Act.state).callback i
    Act.change fun s => { s with calls := s.calls ++ [c.name] }
    for a in c.script do
      let _ ← act a
    if let some f := c.failure then throw f

/-- Does what an action says, given what it is to call a callback. -/
def performWith (run : Nat → Act Session Unit) : Action → Act Session Unit
  | .define n failure script =>
    Act.change fun s => { s with
      callbacks := s.callbacks.push ⟨n, failure, script⟩
      names := name n s.callbacks.size s.names }
  | .register n registration => do
    match (← Act.state).names.lookup n with
    | none => throw (.unknownName n)
    | some i =>
      let (now, t) := (← Act.state).token.register i
      Act.change fun s => { s with token := t }
      if now then run i
      Act.change fun s => { s with
        registrations := name registration (if now then none else some i) s.registrations }
  | .unregister registration => do
    match (← Act.state).registrations.lookup registration with
    | none => throw (.unknownName registration)
    | some none => return
    | some (some i) => Act.change fun s => { s with token := s.token.unregister i }
  | .cancel => do
    let (is, t) := (← Act.state).token.cancel
    Act.change fun s => { s with token := t }
    for i in is do
      run i

/-- Does what an action says; `depth` limits how deeply calls may be nested. -/
def perform : Nat → Action → Act Session Unit
  | 0 => performWith (respond fun _ =>
      throw (.raised "RecursionError" "maximum recursion depth exceeded"))
  | depth + 1 => performWith (respond (perform depth))

end EditorBridge.Token
