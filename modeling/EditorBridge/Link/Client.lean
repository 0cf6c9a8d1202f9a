/-
The language client.

A client runs one server process and greets it; what is sent before the server has
answered the greeting waits, and is sent in order afterwards.  A client that stops asks
its server to shut down and to exit, and ends it if it takes too long.
-/
import EditorBridge.Link.Peers
import EditorBridge.Uri.File

namespace EditorBridge.Link

open Value (table)

/-- The number that processes know this one by. -/
def processId : Int := 4242

/-- The version of this program. -/
def programVersion : String := "0.3.0"

/-- A nanosecond is the smallest part of a second. -/
def second : Int := 1000000000

/-- How long stopping waits for the server. -/
def patience : Int := 5 * second

def theClient : Act Link Client := return (← Act.state).client

def onClient (f : Client → Client) : Act Link Unit :=
  Act.change fun l => { l with client := f l.client }

def logClient (level : Level) (text : String) : Act Link Unit := Act.log Client.logger level text

/-! ### What is sent -/

/-- The end that a running client talks to. -/
def clientPeer : Act Link PeerId := do
  match (← theClient).peer with
  | some p => return p
  | none => throw (.client .notRunning)

/-- Whether messages go out at once.  Without an end they do so to no avail. -/
def sendsNow (c : Client) : Bool := c.initialized || c.peer.isNone

/-- Sends a notification, or keeps it until the server is ready. -/
def notifyServer (method : String) (params : Value) : Act Link Unit := do
  if sendsNow (← theClient) then notify (← clientPeer) method params
  else onClient fun c => { c with queued := c.queued ++ [.notification method params] }

/-- Sends a request, or keeps it until the server is ready. -/
def requestServer (method : String) (params : Value) (target : Wire.Target)
    (token : Option TokenId) : Act Link FutureId := do
  if sendsNow (← theClient) then sendRequest (← clientPeer) method params target token
  else
    let result ← newFuture
    onClient fun c => { c with queued := c.queued ++ [.request method params target token result] }
    return result

/-- Whether a message that had to wait may be dropped because of a failure. -/
def dropsFor (f : Failure) : Bool := f.isClient || f.isConnection

/-- Sends a message that had to wait. -/
def sendQueued : Queued → Act Link Unit
  | .notification method params => do
    match ← Act.outcome (do notify (← clientPeer) method params) with
    | .ok () => return
    | .error f =>
      if !dropsFor f then throw f
      logClient .warning s!"dropping queued {method} notification: {f.message}"
  | .request method params target token result => do
    if ← isDone result then return
    match ← Act.outcome (do sendRequest (← clientPeer) method params target token) with
    | .ok f => whenDone f (.pass result)
    | .error f =>
      if !dropsFor f then throw f
      settle result (.failed f)

/-- Sends everything that had to wait. -/
def flush : Act Link Unit := do
  let queued := (← theClient).queued
  onClient fun c => { c with queued := [] }
  for q in queued do sendQueued q

/-! ### Starting -/

/-- What the client can do with the answers of a server. -/
def capabilities : Value :=
  let words (ws : List String) : Value := .list (ws.map .str)
  table [
    ("workspace", table [("configuration", .bool true), ("workspaceFolders", .bool true)]),
    ("textDocument", table [
      ("synchronization", table [("didSave", .bool true)]),
      ("completion", table [
        ("completionItem", table [("snippetSupport", .bool false),
          ("documentationFormat", words ["markdown", "plaintext"]),
          ("deprecatedSupport", .bool true), ("insertReplaceSupport", .bool true)]),
        ("contextSupport", .bool true)]),
      ("hover", table [("contentFormat", words ["markdown", "plaintext"])]),
      ("formatting", table []),
      ("publishDiagnostics", table [])]),
    ("general", table [("positionEncodings", words ["utf-16"])])]

/-- The first text that says something. -/
def firstSaid (texts : List (Option String)) : Option String :=
  (texts.filterMap id).find? (· ≠ "")

/-- What the client says to greet the server. -/
def greeting (c : Client) : Except Failure Value := do
  let o := c.options
  let root := FilePath.ofString ((firstSaid [o.root, c.executable.cwd]).getD c.folder)
  let uri := (← (Uri.ofPath ((FilePath.ofString c.folder).join root)).mapError .uri).toString
  let said := table ([
    ("processId", .int processId),
    ("clientInfo", table [("name", o.name), ("version", .str programVersion)]),
    ("rootUri", .str uri),
    ("capabilities", capabilities),
    ("workspaceFolders", .list [table [("uri", .str uri), ("name", .str root.name)]])] ++
    (if o.initialization.isNull then [] else [("initializationOptions", o.initialization)]) ++
    (if o.trace.isNull then [] else [("trace", o.trace)]))
  return (← (Wire.read (.struct "InitializeParams") said).mapError .wire).toValue

/-- What is logged about a server that was greeted; null says nothing about itself. -/
def greetedText (greeted : Wire) : Except Failure String := do
  let info ← part greeted "serverInfo"
  return "server initialized" ++ if info.isNothing then ""
    else ": " ++ (info.get "name").asText ++ " " ++ ((info.get "version").text?.getD "")

/-- The server answered the greeting: what had to wait is sent. -/
def welcome (ready : Option FutureId) (greeted : Wire) : Act Link Unit := do
  onClient fun c => { c with greeted }
  notify (← clientPeer) "initialized" (table [])
  onClient fun c => { c with initialized := true }
  flush
  Act.logBuilt Client.logger .info fun _ => greetedText greeted
  if let some f := ready then
    let _ ← settleOpen f (.result (.wire greeted))

/-- How those who wait for the server are told that the greeting failed. -/
def greetingFailure (f : Failure) : Failure :=
  if f.isClient then f else .client (.handshake f.message)

/-- The greeting failed: those who wait for the server are told. -/
def greetingFailed (ready : Option FutureId) (f : Failure) : Act Link Step := do
  let tell (e : Ending Reply) : Act Link Unit := do
    if let some r := ready then
      let _ ← settleOpen r e
  if f.isCancelled then
    tell .cancelled
    throw f
  else if f.isExit then throw f
  else
    Act.logFailure Client.logger f
    tell (.failed (greetingFailure f))
    return .done .nothing

/-- Goes on once the server answered the greeting. -/
def greeted (ready : Option FutureId) (r : Except Failure Reply) : Act Link Step := do
  match r with
  | .error f => greetingFailed ready f
  | .ok reply =>
    match ← Act.outcome (welcome ready reply.asWire) with
    | .ok () => return .done .nothing
    | .error f => greetingFailed ready f

/-- Greets the server. -/
def greet : Act Link Step := do
  let ready := (← theClient).ready
  let send : Act Link FutureId := do
    let p ← clientPeer
    sendRequest p "initialize" (← Act.ofExcept (greeting (← theClient)))
      (.struct "InitializeResult") none
  match ← Act.outcome send with
  | .error f => greetingFailed ready f
  | .ok answer => awaiting answer (.greeted ready) (greeted ready)

/-- What is logged before a server is run. -/
def startingText (e : Executable) : String :=
  let text := "starting " ++ e.command ++ " " ++ String.intercalate " " e.args
  String.ofList (text.toList.reverse.dropWhile Text.isBlank).reverse

/-- Starts the client: begins to run a server process. -/
def start : Act Link Step := do
  if (← theClient).process.isSome then throw (.client .alreadyRunning)
  let ready ← newFuture
  let exited ← newFuture
  let p ← newPeer Peer.ofClient
  onClient fun c => { c with
    greeted := .nothing, initialized := false, queued := []
    ready := some ready, exited := some exited, peer := some p }
  let e := (← theClient).executable
  logClient .info (startingText e)
  Act.change fun l => { l with spawned := l.spawned ++ [e] }
  return .turn [.spawned p exited]

/-- Runs a server process and connects it. -/
def spawn (p : PeerId) (exited : FutureId) : Act Link ProcessId := do
  let l ← Act.state
  if let .fails f := l.spawning then throw (f l.client.executable.command)
  let n := l.processes.size
  Act.change fun l => { l with processes := l.processes.push { peer := p, exited } }
  if let .runs := l.spawning then onPeer p fun e => { e with outlet := some { process := some n } }
  return n

/-- The server process is there: it is greeted. -/
def running (n : ProcessId) : Act Link Step := do
  onClient fun c => { c with process := some n }
  match (← theClient).exited with
  | none => throw (.noAttribute "NoneType" "add_done_callback")
  | some f => whenDone f .gone
  let t ← startTask .greet
  onClient fun c => { c with greeting := some t }
  return .done .nothing

/-- Goes on once the server process is there. -/
def whenSpawned (p : PeerId) (exited : FutureId) (r : Except Failure Reply) : Act Link Step := do
  let _ ← Act.ofExcept r
  match ← Act.outcome (spawn p exited) with
  | .ok n => running n
  | .error f =>
    if !f.isSystem then throw f
    onClient fun c => { c with peer := none, ready := none, exited := none }
    throw (.client (.cannotStart (← theClient).executable.command f.message))

/-- Waits for the end of the greeting. -/
def ready : Act Link Step := do
  match (← theClient).ready with
  | none => throw (.client .notStarted)
  | some f => awaiting (← shield f) .reply fun r => return .done (← Act.ofExcept r)

/-! ### Server processes -/

def process (n : ProcessId) : Act Link Process := return (← Act.state).processes.getD n default

def onProcess (n : ProcessId) (f : Process → Process) : Act Link Unit :=
  Act.change fun l => { l with processes := l.processes.modify n f }

def stderrLogger : Logger :=
  { name := "lspbridge.client.language_client._ServerProcessProtocol_stderr" }

/-- The lines of bytes that are complete, and what is behind the last line break. -/
def completeLines : Rpc.Bytes → List Rpc.Bytes × Rpc.Bytes
  | [] => ([], [])
  | b :: bs =>
    let (lines, rest) := completeLines bs
    if b = 10 then ([] :: lines, rest)
    else match lines with
      | [] => ([], b :: rest)
      | l :: ls => ((b :: l) :: ls, rest)

/-- A line of the error stream as it is logged. -/
def lineText (bs : Rpc.Bytes) : String :=
  String.ofList ((Text.Utf8.decodeLossy bs).reverse.dropWhile (· = '\r')).reverse

/-- Takes bytes of the error stream: each line is logged once it is complete. -/
def receiveStderr (n : ProcessId) (bytes : Rpc.Bytes) : Act Link Unit := do
  let (lines, rest) := completeLines ((← process n).stderr ++ bytes)
  onProcess n fun p => { p with stderr := rest }
  for l in lines do Act.log stderrLogger .info (lineText l)

/-- Takes bytes of an output of a process. -/
def receiveOutput (n : ProcessId) (output : Int) (bytes : Rpc.Bytes) : Act Link Unit := do
  if output = 1 then receive (← process n).peer bytes
  else if output = 2 then receiveStderr n bytes

/-- Tells everybody that a process is gone. -/
def processExited (n : ProcessId) : Act Link Unit := do
  let p ← process n
  if !p.stderr.isEmpty then
    onProcess n fun p => { p with stderr := [] }
    Act.log stderrLogger .info (String.ofList (Text.Utf8.decodeLossy p.stderr))
  connectionLost p.peer none
  let _ ← settleOpen p.exited (.result (.code (if p.known then p.code else none)))

/-- A process ends, once. -/
def die (n : ProcessId) (code : Int) : Act Link Unit := do
  if (← process n).code.isNone then
    onProcess n fun p => { p with code := some code }
    processExited n

/-- Notes what was asked of a process. -/
def order (n : ProcessId) (text : String) : Act Link Unit :=
  Act.change fun l => { l with orders := l.orders ++ [(n, text)] }

/-- Asks a process to end. -/
def terminate (n : ProcessId) : Act Link Unit := do
  order n "terminate"
  if (← process n).code.isNone then soon (.die n (-15))

/-- A message with headers as short as can be. -/
def delivered (message : Value) : Except Failure Rpc.Bytes := do
  let body ← (Json.render .compact message).mapError .unwritable
  return (s!"Content-Length: {body.utf8ByteSize}\r\n\r\n" ++ body).toUTF8.toList

/-- A process answers what was written to it, unless it has ended. -/
def react (n : ProcessId) (script : Value) (id : Option Value) : Act Link Unit := do
  if (← process n).code.isSome then return
  let say (m : Value) : Act Link Unit := do receiveOutput n 1 (← Act.ofExcept (delivered m))
  if let some (.list ms) := script.get? "messages" then
    for m in ms do say m
  if let some id := id then
    let answer := ["result", "error"].filterMap fun k => (script.get? k).map (k, ·)
    if !answer.isEmpty then say (table ([("jsonrpc", version), ("id", id)] ++ answer))
  if let some (.int code) := script.get? "exit" then die n code

/-! ### Stopping -/

/-- The end of the server process: everybody who waits is told.  What is left is to tell those
who listen. -/
def processGone (exited : FutureId) : Act Link Unit := do
  let code := match ← ending? exited with
    | some (.result (.code c)) => c
    | _ => none
  if (← theClient).stopping then
    logClient .info s!"server process exited with code {exitCodeText code}"
  else
    logClient .warning s!"server process exited unexpectedly with code {exitCodeText code}"
  if let some f := (← theClient).ready then
    let _ ← settleOpen f (.failed (.client (.exited code)))
  if let some n := (← theClient).process then order n "close"
  onClient fun c => { c with process := none, peer := none, initialized := false }
  flush

/-- Stopping is over. -/
def stopOver : Act Link Unit := onClient fun c => { c with stopping := false }

/-- Goes on once the process that was ended is gone. -/
def left (r : Except Failure Reply) : Act Link Step := do
  stopOver
  let _ ← Act.ofExcept r
  return .done .nothing

/-- Goes on once the process is gone, or took too long. -/
def leaving (n : ProcessId) (exited : FutureId) (r : Except Failure Reply) : Act Link Step := do
  match r with
  | .error f =>
    if f.kind == Failure.timedOut.kind then
      logClient .warning "server process did not exit, terminating it"
      terminate n
      awaiting exited .left left
    else left r
  | .ok _ => left r

/-- Waits for the end of the process. -/
def leave (n : ProcessId) (exited : FutureId) (timeout : Option Int) : Act Link Step := do
  Step.calling (do waitFor (← shield exited) timeout) (.leaving n exited) (leaving n exited)

/-- The server agreed to shut down: it is told to exit. -/
def sayExit : Act Link Unit := do
  match (← theClient).peer with
  | none => throw (.noAttribute "NoneType" "send_notification")
  | some p => notify p "exit" .null

/-- Goes on once the server agreed to shut down, or did not. -/
def shutDown (n : ProcessId) (exited : FutureId) (timeout : Option Int)
    (r : Except Failure Reply) : Act Link Step := do
  match ← Act.outcome (do let _ ← Act.ofExcept r; sayExit) with
  | .ok () => leave n exited timeout
  | .error f =>
    if f.isConnection || f.kind == Failure.timedOut.kind then
      logClient .warning ("shutdown failed: " ++ f.report)
      leave n exited timeout
    else left (.error f)

/-- Asks the server to shut down, waits for its end and ends it if need be. -/
def stop (timeout : Option Int) : Act Link Step := do
  let c ← theClient
  match c.process, c.exited with
  | some n, some exited =>
    onClient fun c => { c with stopping := true }
    if let some t := c.greeting then cancelTask t
    match c.greeted.isNothing, c.peer with
    | false, some p =>
      Step.calling (do waitFor (← sendRequest p "shutdown" .null .unchanged none) timeout)
        (.shutDown n exited timeout) (shutDown n exited timeout)
    | _, _ => leave n exited timeout
  | _, _ => return .done .nothing

/-- How a call of `stop` is recorded. -/
def tracedStop (arguments : List String) (timeout : Option Int) : Act Link Step :=
  Step.traced Client.logger "LanguageClient.stop" (fun _ => arguments) (stop timeout)

/-- How a call of `start` is recorded. -/
def tracedStart : Act Link Step :=
  Step.traced Client.logger "LanguageClient.start" (fun _ => []) start

/-- Goes on once the client is stopped. -/
def restarted (r : Except Failure Reply) : Act Link Step := do
  let _ ← Act.ofExcept r
  tracedStart

/-- Stops and starts the client. -/
def restart : Act Link Step := Step.calling (tracedStop [] (some patience)) .restarted restarted

end EditorBridge.Link
