/-
The recorder, and what it has in common with a language client: messages can be sent to
either.
-/
import EditorBridge.Link.Client

namespace EditorBridge

/-- How a response ends the future of a request. -/
def Response.ending (target : Wire.Target) : Response → Ending Reply
  | .result v => match Wire.read target v with
    | .ok w => .result (.wire w)
    | .error e => .failed (.wire e)
  | .failure f => .failed f

/-- Puts a request behind the others of its method. -/
def Recorder.enqueue (method : String) (f : FutureId) (target : Wire.Target) (r : Recorder) :
    Recorder :=
  let old := (r.waiting.lookup method).getD []
  { r with waiting := (method, old ++ [(f, target)]) :: r.waiting.filter (·.1 ≠ method) }

namespace Link

def onRecorder (f : Recorder → Recorder) : Act Link Unit :=
  Act.change fun l => { l with recorder := f l.recorder }

def theRecorder : Act Link Recorder := return (← Act.state).recorder

/-- Notes a message. -/
def note (n : Note) : Act Link Unit := onRecorder fun r => { r with notes := r.notes ++ [n] }

/-- Fails if messages of a method are meant to. -/
def checkSend (method : String) : Act Link Unit := do
  if let some f := (← theRecorder).sendFails.lookup method then throw f

/-- Takes a notification. -/
def recordNotification (method : String) (params : Value) : Act Link Unit := do
  checkSend method
  note { kind := "notification", method := some method, params }

/-- Takes a request: it is answered at once, or stays open. -/
def recordRequest (method : String) (params : Value) (target : Wire.Target)
    (token : Option TokenId) : Act Link FutureId := do
  checkSend method
  note { kind := "request", method := some method, params }
  let f ← newFuture
  if let some t := token then
    let _ ← watch t (.note method f)
  if !(← isDone f) then
    match (← theRecorder).responses.lookup method with
    | some r => settle f (Response.ending target r)
    | none => onRecorder (Recorder.enqueue method f target)
  return f

/-- Takes the oldest open request of a method. -/
def takeWaiting (method : String) : Act Link (FutureId × Wire.Target) := do
  match (← theRecorder).waiting.lookup method with
  | none => throw (.unknownName method)
  | some [] => throw .nothingLeft
  | some (first :: rest) =>
    onRecorder fun r => { r with
      waiting := (method, rest) :: r.waiting.filter (·.1 ≠ method) }
    return first

/-- Sends a notification to whoever is there. -/
def sendNotification (method : String) (params : Value) : Act Link Unit := do
  if (← Act.state).recording then recordNotification method params
  else notifyServer method params

/-- Sends a request to whoever is there. -/
def sendQuery (method : String) (params : Value) (target : Wire.Target)
    (token : Option TokenId) : Act Link FutureId := do
  if (← Act.state).recording then recordRequest method params target token
  else requestServer method params target token

/-- What the server said about itself. -/
def serverGreeting : Act Link Wire := do
  let l ← Act.state
  return if l.recording then (if l.recorder.started then l.recorder.greeting else .nothing)
    else l.client.greeted

/-- The characters that make the server propose something. -/
def triggersOf (greeting : Wire) : List String :=
  (((greeting.get "capabilities").get "completionProvider").get "triggerCharacters").items.map
    (·.asText)

/-- Starts whoever is there. -/
def connect : Act Link Step := do
  if (← Act.state).recording then
    note { kind := "start" }
    if let some f := (← theRecorder).startFails then throw f
    onRecorder fun r => { r with started := true }
    return .done .nothing
  else tracedStart

/-- Stops whoever is there. -/
def disconnect : Act Link Step := do
  if (← Act.state).recording then
    note { kind := "stop" }
    onRecorder fun r => { r with started := false }
    return .done .nothing
  else tracedStop [] (some patience)

/-- Waits until whoever is there is ready. -/
def connected : Act Link Step := do
  if (← Act.state).recording then return .done (.wire (← theRecorder).greeting)
  else ready

end Link

end EditorBridge
