/-
The state below the editor: the loop, tokens, connections, server processes, the
language client, and a recorder that can take the client's place.
-/
import EditorBridge.Cancellation.Token
import EditorBridge.Event.Basic
import EditorBridge.Rpc.Peer

namespace EditorBridge

/-- What happens when a token is cancelled. -/
inductive Notice where
  /-- The other side is told that nobody waits for an answer any more. -/
  | request (peer : PeerId) (id : Nat)
  /-- The recorder notes it. -/
  | note (method : String) (future : FutureId)
  deriving DecidableEq, Repr

/-- What happens when a future ends. -/
inductive Callback where
  /-- A task that waits for it goes on. -/
  | wake (task : TaskId)
  /-- Somebody who waits for one of several things is released. -/
  | release (waiter : FutureId)
  /-- A future that stands for it ends the same way. -/
  | copy (outer : FutureId)
  /-- What it stands for is not watched any more. -/
  | forgetCopy (inner : FutureId)
  | unregister (token : TokenId) (notice : Notice)
  /-- Formatting of a document is over. -/
  | formatted (uri : String)
  /-- The future of a request that had to wait ends the same way. -/
  | pass (target : FutureId)
  /-- The server process of the language client is gone. -/
  | gone
  deriving DecidableEq, Repr

/-- Something to be done. -/
inductive Job where
  | step (task : TaskId)
  | call (k : Callback) (f : FutureId)
  /-- A future ends without result. -/
  | release (f : FutureId)
  /-- A server process answers what was written to it. -/
  | react (process : ProcessId) (answer : Value) (id : Option Value)
  /-- A server process ends. -/
  | die (process : ProcessId) (code : Int)
  deriving Repr

/-- How to run a server. -/
structure Executable where
  command : String := "server"
  args : List String := []
  env : Option (List (String × String)) := none
  cwd : Option String := none
  deriving DecidableEq, Repr, Inhabited

/-- The entries that a process gets in addition to its environment. -/
def Executable.extraEnv (e : Executable) : Option (List (String × String)) :=
  e.env.filter fun es => !es.isEmpty

/-- What a language client tells its server about itself. -/
structure ClientOptions where
  name : Value := .str "lspbridge"
  root : Option String := none
  initialization : Value := .null
  trace : Value := .null
  deriving Repr, Inhabited

/-- A message that has to wait until the server is ready. -/
inductive Queued where
  | notification (method : String) (params : Value)
  | request (method : String) (params : Value) (target : Wire.Target) (token : Option TokenId)
      (result : FutureId)
  deriving Repr

/-- The state of a language client. -/
structure Client where
  run : Executable := {}
  debugRun : Option Executable := none
  debug : Bool := false
  options : ClientOptions := {}
  /-- The folder that the client works in. -/
  folder : String := "/"
  peer : Option PeerId := none
  process : Option ProcessId := none
  ready : Option FutureId := none
  exited : Option FutureId := none
  greeting : Option TaskId := none
  /-- What the server said about itself. -/
  greeted : Wire := .nothing
  initialized : Bool := false
  queued : List Queued := []
  stopping : Bool := false
  deriving Inhabited

namespace Client

def logger : Logger := { name := "lspbridge.client.language_client.LanguageClient" }

/-- How to run the server. -/
def executable (c : Client) : Executable :=
  if c.debug then c.debugRun.getD c.run else c.run

end Client

/-- A server process. -/
structure Process where
  peer : PeerId
  exited : FutureId
  /-- Whether the process is still known to those who watch it. -/
  known : Bool := true
  code : Option Int := none
  /-- What it wrote to its error stream, from the last line break on. -/
  stderr : Rpc.Bytes := []
  closing : Bool := false
  deriving Inhabited

/-- How attempts to run a server process end. -/
inductive Spawning where
  | runs
  /-- It runs, but nothing can be written to it. -/
  | runsWithoutInput
  | fails (f : String → Failure)
  deriving Inhabited

/-- What the recorder answers to requests of a method. -/
inductive Response where
  | result (v : Value)
  | failure (f : Failure)
  deriving Repr

/-- A message that the recorder took: its kind, its method and its parameters. -/
structure Note where
  kind : String
  method : Option String := none
  params : Value := .null
  deriving Repr, Inhabited

/-- A language client without a server: it notes what it is given, and answers as told. -/
structure Recorder where
  started : Bool := false
  /-- What it says about its server while it is started. -/
  greeting : Wire := .nothing
  startFails : Option Failure := none
  sendFails : List (String × Failure) := []
  responses : List (String × Response) := []
  /-- Whether requests fail once they are cancelled. -/
  failsCancelled : Bool := false
  waiting : List (String × List (FutureId × Wire.Target)) := []
  notes : List Note := []
  deriving Inhabited

/-- Who hears that the language client has stopped: somebody who notes it, or the extension. -/
inductive StopListener where
  | observer
  | extension
  deriving DecidableEq, Repr

/-- The number of the request that a message is about: its own, or that of the request which it
takes back. -/
def Frame.number? (message : Value) : Option Int :=
  match message.get? "id", (message.get? "params").bind (·.get? "id") with
  | some (.int n), _ => some n
  | none, some (.int n) => some n
  | _, _ => none

/-- The body of the frame of a message.  The numbers of requests are counted up from one, and no
run is so long that one of them has too many digits; they are taken as short in every run. -/
def Frame.render (message : Value) : Except Json.Unwritable String :=
  Json.write (fun n => Digits.fit n || Frame.number? message == some n) .compact 0 message

/-- A frame that was written: the process behind it, its text, and the message it carries. -/
structure Frame where
  process : Option ProcessId
  text : String
  message : Value
  body : String
  /-- The body is the message. -/
  rendered : Frame.render message = .ok body
  /-- The text is the body with its headers. -/
  framed : text = Rpc.framed body

/-- The frame of a message, if it can be written. -/
def Frame.of (process : Option ProcessId) (message : Value) : Except Json.Unwritable Frame :=
  match h : Frame.render message with
  | .ok body =>
    .ok { process, text := Rpc.framed body, message, body, rendered := h, framed := rfl }
  | .error e => .error e

/-- The state below the editor. -/
structure Link where
  loop : Loop Reply Callback Job := {}
  tasks : Array Task := #[]
  tokens : Array (Token Notice) := #[]
  peers : Array Peer := #[]
  processes : Array Process := #[]
  client : Client := {}
  recorder : Recorder := {}
  /-- Whether messages go to the recorder. -/
  recording : Bool := false
  spawning : Spawning := .runs
  /-- What server processes do when a message of a method is written to them. -/
  scripts : List (String × Value) := []
  /-- Frames that were written. -/
  written : List Frame := []
  /-- Calls that were noted by handlers. -/
  calls : List (String × Value) := []
  /-- The processes that were run. -/
  spawned : List Executable := []
  /-- What was asked of processes. -/
  orders : List (ProcessId × String) := []
  /-- How often it was noted that the language client has stopped. -/
  stops : Nat := 0
  /-- How noting it fails. -/
  noteFails : Option Failure := none
  machine : Machine := {}
  deriving Inhabited

end EditorBridge
