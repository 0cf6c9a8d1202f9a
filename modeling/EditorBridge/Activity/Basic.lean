/-
Activities: what goes on over several turns of the loop.

An activity runs until it needs something that is not there yet.  What it still has to
do then is kept as a list of resumptions, the innermost first: each says what somebody
who called somebody else does with the reply.  Nothing else of an activity is kept, so
whatever can happen between two of its turns can be read off the resumptions.
-/
import EditorBridge.Editor.Registration
import EditorBridge.Feature.Answers
import EditorBridge.Loop.Basic
import EditorBridge.Log.Act

namespace EditorBridge

/-- The number of a cancellation token. -/
abbrev TokenId := Nat

/-- The number of a document, open or not. -/
abbrev DocumentId := Nat

/-- The number of a server process. -/
abbrev ProcessId := Nat

/-- The number of an end of a connection. -/
abbrev PeerId := Nat

/-- What an activity answers, or a future has for a result. -/
inductive Reply where
  | nothing
  | wire (w : Wire)
  | code (c : Option Int)
  | hover (h : Option Hover)
  | completions (l : Option CompletionList)
  | value (v : Value)
  deriving Repr, Inhabited

namespace Reply

/-- The object of the protocol in a reply. -/
def asWire : Reply → Wire
  | wire w => w
  | _ => .nothing

end Reply

/-- What a query asks for. -/
inductive Query where
  | hover
  | completion
  deriving DecidableEq, Repr, Inhabited

/-- A query of the editor: about which document and where, and who may cancel it. -/
structure Question where
  document : DocumentId
  position : Position
  token : TokenId
  deriving DecidableEq, Repr, Inhabited

/-- A step of a script: its place, its name and what it says. -/
structure ScriptStep where
  place : Nat
  name : String
  data : Value
  deriving Repr, Inhabited

/-- Something that an activity still has to do once there is a reply. -/
inductive Resumption where
  /-- Records the failure of a call. -/
  | traced (logger : Logger) (call : String)
  /-- Goes on once a future ended or its time is over. -/
  | inTime (future waiter : FutureId) (timer : Nat)
  /-- Goes on once a future that is given up has ended. -/
  | givenUp (future waiter : FutureId) (timer : Option Nat) (late : Bool)
  /-- Passes the reply on. -/
  | reply
  /-- Starts the language client. -/
  | start
  /-- Goes on once the server process is there. -/
  | spawned (peer : PeerId) (exited : FutureId)
  /-- Begins the handshake with the server. -/
  | greet
  /-- Goes on once the server answered the handshake. -/
  | greeted (ready : Option FutureId)
  /-- Waits for the end of the handshake. -/
  | await
  /-- Stops the language client. -/
  | stop (arguments : List String) (timeout : Option Int)
  /-- Goes on once the server agreed to shut down, or did not. -/
  | shutDown (process : ProcessId) (exited : FutureId) (timeout : Option Int)
  /-- Goes on once the process is gone, or took too long. -/
  | leaving (process : ProcessId) (exited : FutureId)
  /-- Goes on once the process that was ended is gone. -/
  | left
  /-- Stops and starts the language client. -/
  | restart
  /-- Goes on once the language client is stopped. -/
  | restarted
  /-- Activates the extension. -/
  | activate
  /-- Goes on once an earlier activation is undone. -/
  | cleared
  /-- Goes on once the language client is started. -/
  | started
  /-- Goes on once the server is ready. -/
  | ready
  /-- Fails once an activation that failed is undone. -/
  | failed (f : Failure)
  /-- Deactivates the extension. -/
  | deactivate
  /-- Goes on once the language client is stopped for a deactivation. -/
  | stopped
  /-- Looks at the answer to a request. -/
  | answered (method : String) (token : TokenId)
  /-- Turns an answer of the server into one for the editor. -/
  | converted (q : Query)
  /-- Asks the providers of hovers. -/
  | askHover (q : Question)
  /-- Takes the answer of a provider and asks those that are left. -/
  | hovers (soFar : Hover) (rest : List Registration) (q : Question)
  /-- Asks the providers of proposals. -/
  | askCompletion (q : Question) (trigger : Option String)
  /-- Takes the answer of a provider and asks those that are left. -/
  | completions (soFar : Option CompletionList) (rest : List Registration) (q : Question)
  /-- Asks a query proxy. -/
  | askProxy (proxy : Nat) (kind : Query) (document : DocumentId) (position : Position)
      (token : Option TokenId)
  /-- Plays a script. -/
  | play (steps : List ScriptStep)
  /-- Goes on once a time is over. -/
  | waited (step : ScriptStep) (rest : List ScriptStep)
  /-- Cancels a query that was begun. -/
  | interrupting (token : TokenId) (query : FutureId) (step : ScriptStep) (uri : String)
      (rest : List ScriptStep)
  /-- Goes on once a query is answered. -/
  | queried (step : ScriptStep) (uri : String) (rest : List ScriptStep)
  /-- Activates the extension, plays a script or shows what the server can do, and deactivates. -/
  | session (steps : Option (List ScriptStep))
  /-- Goes on once the extension is active. -/
  | sessionActive (steps : Option (List ScriptStep))
  /-- Goes on once the script was played. -/
  | sessionPlayed
  /-- Ends once the extension is deactivated. -/
  | sessionOver (outcome : Except Failure Reply)
  deriving Inhabited

/-- How far an activity got in one go. -/
inductive Step where
  | done (r : Reply)
  /-- It waits for a future. -/
  | wait (f : FutureId) (rest : List Resumption)
  /-- It lets the others have a turn. -/
  | turn (rest : List Resumption)
  deriving Inhabited

namespace Step

variable {σ : Type}

/-- Calls an activity and goes on with its outcome, now if it is there and later otherwise. -/
def calling (a : Act σ Step) (rest : Resumption) (go : Except Failure Reply → Act σ Step) :
    Act σ Step := do
  match ← Act.outcome a with
  | .error f => go (.error f)
  | .ok (.done r) => go (.ok r)
  | .ok (.wait f more) => return .wait f (more ++ [rest])
  | .ok (.turn more) => return .turn (more ++ [rest])

/-- What is left of a call that was recorded: a failure is recorded, too. -/
def afterCall (logger : Logger) (call : String) : Except Failure Reply → Act σ Step
  | .ok r => return .done r
  | .error f => do
    Act.log logger .error (Act.failedCall call f)
    throw f

/-- Records a call, as long as calls are recorded. -/
def traced (logger : Logger) (call : String) (arguments : Unit → List String) (a : Act σ Step) :
    Act σ Step := do
  if ← Act.traces logger .trace then
    Act.log logger .trace (call ++ "(" ++ String.intercalate ", " (arguments ()) ++ ")")
    calling a (.traced logger call) (afterCall logger call)
  else a

end Step

/-- An activity that was begun on its own account. -/
structure Task where
  /-- What it has to do when it is its turn. -/
  rest : List Resumption
  /-- What it waits for. -/
  waitsFor : Option FutureId := none
  /-- Whether it is to be told that it was cancelled. -/
  mustCancel : Bool := false
  /-- The future that its outcome ends. -/
  outcome : FutureId
  deriving Inhabited

end EditorBridge
