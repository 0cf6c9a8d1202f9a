/-
What an end of a connection sends and receives.

Requests get increasing numbers, and a response ends the future of the request with its
number.  A request that is cancelled is taken back on the wire, but its future still ends
with whatever the other side answers.  Calls of the other side go to the handlers of the
end, and each request among them is answered.
-/
import EditorBridge.Link.Futures
import EditorBridge.Json.Writer
import EditorBridge.Text.Charset

namespace EditorBridge.Link

/-- The version of the messages. -/
def version : Value := .str "2.0"

/-- The method that takes a request back. -/
def cancelMethod : String := "$/cancelRequest"

/-- The codes of errors. -/
def parseError : Int := -32700
def invalidRequest : Int := -32600
def methodNotFound : Int := -32601
def internalError : Int := -32603

/-- An end. -/
def peer (p : PeerId) : Act Link Peer := return (← Act.state).peers.getD p default

/-- Changes an end. -/
def onPeer (p : PeerId) (f : Peer → Peer) : Act Link Unit :=
  Act.change fun l => { l with peers := l.peers.modify p f }

/-- A new end. -/
def newPeer (p : Peer) : Act Link PeerId := do
  let n := (← Act.state).peers.size
  Act.change fun l => { l with peers := l.peers.push p }
  return n

/-- Parameters of null are none at all. -/
def withParams (params : Value) (message : List (String × Value)) : Value :=
  Value.table (message ++ if params.isNull then [] else [("params", params)])

/-- A notification. -/
def notification (method : String) (params : Value) : Value :=
  withParams params [("jsonrpc", version), ("method", .str method)]

/-- A request. -/
def request (id : Nat) (method : String) (params : Value) : Value :=
  withParams params [("jsonrpc", version), ("id", .int id), ("method", .str method)]

/-- The answer to a request. -/
def response (id result : Value) : Value :=
  Value.table [("jsonrpc", version), ("id", id), ("result", result)]

/-- The answer to a request that failed; no data are no member. -/
def errorResponse (id code message data : Value) : Value :=
  Value.table [("jsonrpc", version), ("id", id), ("error", Value.table
    ([("code", code), ("message", message)] ++ if data.isNull then [] else [("data", data)]))]

/-- Lets a process notice that something was written to it. -/
def noticed (process : ProcessId) (message : Value) : Act Link Unit := do
  if let some (.str method) := message.get? "method" then
    if let some script := (← Act.state).scripts.lookup method then
      soon (.react process script (message.get? "id"))

/-- Writes a message. -/
def write (p : PeerId) (message : Value) : Act Link Unit := do
  let some outlet := (← peer p).outlet | throw .notConnected
  let processes := (← Act.state).processes
  if outlet.process.elim outlet.closing fun n => (processes.getD n default).closing then
    throw .notConnected
  let frame ← Act.ofExcept ((Frame.of outlet.process message).mapError .unwritable)
  Act.logBuilt Peer.dataLogger .trace fun _ => .ok ("JSON send: " ++ Text.quote frame.body)
  Act.change fun l => { l with written := l.written ++ [frame] }
  if let some n := outlet.process then noticed n message

/-- Does something that needs a connection; if there is none, this is only recorded. -/
def orWarn (p : PeerId) (a : Act Link Unit) (what : String) : Act Link Unit := do
  match ← Act.outcome a with
  | .ok () => return
  | .error f =>
    if f.isConnection then Act.log (← peer p).logger .warning (what ++ ": " ++ f.message)
    else throw f

/-- Answers with an error. -/
def sendError (p : PeerId) (id code message : Value) (data : Value := .null) : Act Link Unit :=
  orWarn p (write p (errorResponse id code message data)) "Can't send error response"

/-- Sends a notification. -/
def notify (p : PeerId) (method : String) (params : Value) : Act Link Unit :=
  write p (notification method params)

/-- Takes a request back, if it is not answered yet. -/
def takeBack (p : PeerId) (id : Nat) : Act Link Unit := do
  if (← peer p).pending.any (·.id == id) then
    Act.log (← peer p).logger .debug s!"request {id} was cancelled, sending {cancelMethod}"
    orWarn p (notify p cancelMethod (Value.table [("id", .int id)]))
      s!"Can't send {cancelMethod} for request {id}"

/-- Notes that a request to the recorder was cancelled. -/
def noteCancelled (method : String) (f : FutureId) : Act Link Unit := do
  Act.change fun l => { l with recorder := { l.recorder with
    notes := l.recorder.notes ++ [{ kind := "cancel", method := some method }] } }
  if (← Act.state).recorder.failsCancelled then
    let _ ← settleOpen f
      (.failed (.remote (.int Failure.requestCancelled) (.str "Request cancelled.") .null))

/-- What happens when a token is cancelled. -/
def heed : Notice → Act Link Unit
  | .request p id => takeBack p id
  | .note method f => noteCancelled method f

/-- Cancels a token. -/
def cancelToken (t : TokenId) : Act Link Unit := do
  let (notices, token) := ((← Act.state).tokens.getD t default).cancel
  setToken t token
  for n in notices do Token.call (heed n)

/-- Asks for a notice when a token is cancelled, which comes at once if it is.  The answer tells
whether there is something to take back. -/
def watch (t : TokenId) (n : Notice) : Act Link Bool := do
  let (now, token) := ((← Act.state).tokens.getD t default).register n
  setToken t token
  if now then Token.call (heed n)
  return !now

/-- Asks for a notice when a token is cancelled before a future ended. -/
def watchUntil (f : FutureId) (t : TokenId) (n : Notice) : Act Link Unit := do
  if ← watch t n then whenDone f (.unregister t n)

/-- Sends a request; the future ends with its answer. -/
def sendRequest (p : PeerId) (method : String) (params : Value) (target : Wire.Target)
    (token : Option TokenId) : Act Link FutureId := do
  let future ← newFuture
  let id := (← peer p).lastId + 1
  onPeer p fun e => { e with lastId := id }
  write p (request id method params)
  onPeer p fun e => { e with pending := e.pending ++ [{ id, method, future, target }] }
  if let some t := token then watchUntil future t (.request p id)
  return future

/-! ### What the other side sends -/

/-- The number of a response, if it is one that a request can have. -/
def requestNumber? : Value → Option Int
  | .int n => some n
  | .bool b => some (if b then 1 else 0)
  | _ => none

/-- How a response ends a request. -/
def endingOf (target : Wire.Target) (message : Value) : Except Failure (Ending Reply) := do
  let e := (message.get? "error").getD .null
  if e.isNull then
    return match Wire.read target ((message.get? "result").getD .null) with
      | .ok w => .result (.wire w)
      | .error f => .failed (.wire f)
  else match e with
    | .dict _ => return .failed (.remote ((e.get? "code").getD (.int internalError))
        ((e.get? "message").getD .null) ((e.get? "data").getD .null))
    | _ => throw (.noAttribute e.typeName "get")

/-- Takes a response. -/
def receiveResponse (p : PeerId) (message : Value) : Act Link Unit := do
  let id := (message.get? "id").getD .null
  match (requestNumber? id).bind ((← peer p).take? ·) with
  | none =>
    Act.logBuilt (← peer p).logger .warning fun _ =>
      .ok s!"Response for unknown request id {id.shown} received."
  | some (r, rest) =>
    onPeer p fun _ => rest
    if ← isDone r.future then
      Act.log (← peer p).logger .debug
        s!"Response for {r.method} ({id.plain}) is no longer awaited."
    else
      let e ← Act.ofExcept (endingOf r.target message)
      if let .failed (.wire f) := e then Act.logFailure (← peer p).logger (.wire f)
      settle r.future e

/-- The level at which a message of the server is logged. -/
def levelOf (kind : Wire) : Level :=
  match kind with
  | .raw (.int 1) => .error
  | .raw (.int 2) => .warning
  | .raw (.int 4) | .raw (.int 5) => .debug
  | _ => .info

/-- The names of the severities of diagnostics. -/
def severityName (severity : Wire) : String :=
  match severity with
  | .raw (.int 1) => "Error"
  | .raw (.int 2) => "Warning"
  | .raw (.int 3) => "Information"
  | .raw (.int 4) => "Hint"
  | _ => "Unknown"

/-- A part of parameters, which must be there. -/
def part (params : Wire) (name : String) : Except Failure Wire :=
  match params with
  | .object .. => .ok (params.get name)
  | w => .error (.noAttribute w.toValue.typeName (Wire.underscored name))

/-- A diagnostic as it is logged. -/
def diagnosticText (uri : String) (d : Wire) : String :=
  let start := (d.get "range").get "start"
  let line := (start.get "line").asInt + 1
  let column := (start.get "character").asInt + 1
  s!"{uri}:{line}:{column}: " ++ severityName (d.get "severity") ++ ": " ++ (d.get "message").asText

/-- Does what is to be done with the parameters of a call. -/
def perform (p : PeerId) (r : Reaction) (params : Wire) : Act Link Value := do
  match r with
  | .note method cancels answer =>
    Act.change fun l => { l with calls := l.calls ++ [(method, params.toValue)] }
    if let some t := cancels then cancelToken t
    Act.ofExcept (answer params)
  | .logMessage =>
    let kind ← Act.ofExcept (part params "type")
    Act.log Peer.serverLogger (levelOf kind) (params.get "message").asText
    return .null
  | .logTrace =>
    Act.logBuilt Peer.serverLogger .trace fun _ => do
      let text := (← part params "message").asText
      let more := params.get "verbose"
      return text ++ if more.truthy then "\n" ++ more.asText else ""
    return .null
  | .logDiagnostics =>
    let uri := (params.get "uri").asText
    Act.logBuilt (← peer p).logger .debug fun _ => do
      let n := (← part params "diagnostics").items.length
      return s!"{n} diagnostic(s) published for {uri}"
    for d in (← Act.ofExcept (part params "diagnostics")).items do
      Act.log (← peer p).logger .trace (diagnosticText uri d)
    return .null
  | .noSettings =>
    let items := (← Act.ofExcept (part params "items")).items
    return .list (items.map fun _ => .null)
  | .logRegistrations =>
    Act.logBuilt (← peer p).logger .debug fun _ => do
      let rs := (← part params "registrations").items
      return "server registered " ++ (Value.list (rs.map fun r => (r.get "method").toValue)).shown
    return .null
  | .ignore => return .null

/-- Handles a call: the answer, or the failure. -/
def handle (p : PeerId) (h : Handler) (params : Value) : Act Link Value := do
  let w ← Act.ofExcept ((Wire.read h.params params).mapError .wire)
  perform p h.reaction w

/-- The handler of a method, which must be a value that can name something. -/
def handlerOf (e : Peer) : Value → Except Failure (Option Handler)
  | .str method => .ok (e.handler? method)
  | v@(.list _) | v@(.dict _) => .error (.unhashable v.typeName)
  | _ => .ok none

/-- A call that nobody handles. -/
def unhandled (p : PeerId) (method : Value) (id : Option Value) : Act Link Unit := do
  match id, method with
  | some id, _ =>
    sendError p id (.int methodNotFound) (.str ("Unknown method: " ++ method.plain))
  | none, .str m =>
    if !m.startsWith "$/" then
      Act.log (← peer p).logger .warning ("Unhandled notification: " ++ m)
  | none, v => throw (.noAttribute v.typeName "startswith")

/-- Takes a call. -/
def receiveCall (p : PeerId) (method message : Value) : Act Link Unit := do
  let id := message.get? "id"
  match ← Act.ofExcept (handlerOf (← peer p) method) with
  | none => unhandled p method id
  | some h =>
    match ← Act.outcome (handle p h ((message.get? "params").getD .null)) with
    | .ok result =>
      if let some id := id then
        orWarn p (write p (response id result)) ("Can't answer " ++ method.plain)
    | .error (.remote code text data) =>
      if let some id := id then sendError p id code text data
    | .error f =>
      if !f.isError then throw f
      Act.logFailure (← peer p).logger f
      if let some id := id then sendError p id (.int internalError) (.str f.report)

/-- Takes a message. -/
def receiveMessage (p : PeerId) (message : Value) : Act Link Unit := do
  let fits := match message with
    | .dict _ => (message.get? "jsonrpc").any (·.same version)
    | _ => false
  if !fits then
    Act.logBuilt (← peer p).logger .error fun _ =>
      .ok ("Invalid JSON-RPC message: " ++ message.shown)
    sendError p .null (.int invalidRequest) (.str "Invalid JSON-RPC message.")
  else match message.get? "method" with
    | some method => receiveCall p method message
    | none => receiveResponse p message

/-- Reads a body on a machine. -/
def readBodyOn (m : Machine) (body : Rpc.Bytes) (charset : String) : Act Link Value := do
  let text := String.ofList
    (← Act.ofExcept ((Text.decodeNamed m.decode charset body).mapError .unreadable))
  Act.logBuilt Peer.dataLogger .trace fun _ => .ok ("JSON Received: " ++ Text.quote text)
  if m.handles text then Act.ofExcept ((Json.parse text).mapError .json) else throw .exhausted

/-- Reads a body. -/
def readBody (body : Rpc.Bytes) (charset : String) : Act Link Value := do
  readBodyOn (← Act.state).machine body charset

/-- Takes a body: a message, or a list of them. -/
def receiveBody (p : PeerId) (body : Rpc.Bytes) (charset : String) : Act Link Unit := do
  match ← Act.outcome (readBody body charset) with
  | .ok (.list ms) => for m in ms do receiveMessage p m
  | .ok m => receiveMessage p m
  | .error .exhausted => throw .exhausted
  | .error f =>
    Act.log (← peer p).logger .error ("Can't read message: " ++ f.report)
    sendError p .null (.int parseError) (.str f.report)

/-- Takes all messages that are complete, and keeps what is left of the buffer. -/
def drain (p : PeerId) (buffer : Rpc.Bytes) : Act Link Unit :=
  match _h : Rpc.front buffer with
  | .incomplete => return
  | .tooLong n => throw (.json ⟨.tooManyDigits n, default⟩)
  | .unmarked headers rest => do
    Act.logBuilt (← peer p).logger .error fun _ =>
      .ok ("Dropping message without a valid Content-Length header: "
        ++ (Value.table (headers.map fun e => (e.1, .str e.2))).shown)
    onPeer p fun e => { e with buffer := rest }
    drain p rest
  | .message body charset rest => do
    onPeer p fun e => { e with buffer := rest }
    receiveBody p body charset
    drain p rest
termination_by buffer.length
decreasing_by
  · exact Rpc.length_of_front_unmarked _h
  · exact Rpc.length_of_front_message _h

/-- Takes bytes from the other side. -/
def receive (p : PeerId) (bytes : Rpc.Bytes) : Act Link Unit := do
  let buffer := (← peer p).buffer ++ bytes
  onPeer p fun e => { e with buffer }
  drain p buffer

/-- The connection is lost: whoever waits for an answer gets a failure. -/
def connectionLost (p : PeerId) (reason : Option String) : Act Link Unit := do
  let waiting := (← peer p).pending
  onPeer p fun e => { e with outlet := none, pending := [] }
  for r in waiting do
    let _ ← settleOpen r.future (.failed (.connectionLost reason))

end EditorBridge.Link
