/-
Queries of the editor, answered by the server.

The document in question is announced first if need be.  A query that is cancelled while
the server thinks about it has no answer, whatever becomes of the request.
-/
import EditorBridge.Link.Recorder
import EditorBridge.Sync.Relay

namespace EditorBridge

instance : Channel Link where
  notify := Link.sendNotification
  request := Link.sendQuery
  whenFormatted f uri := Link.whenDone f (.formatted uri)

namespace Query

def logger : Logger := { name := "lspbridge.sync.query_proxy.QueryProxy" }

def dataLogger : Logger := { name := "lspbridge.sync.query_proxy.QueryProxy_data" }

/-- The method of the request. -/
def method : Query → String
  | hover => "textDocument/hover"
  | completion => "textDocument/completion"

/-- What the answer is built into. -/
def target : Query → Wire.Target
  | hover => .struct "Hover"
  | completion => .completions

/-- How a call is recorded. -/
def callName : Query → String
  | hover => "QueryProxy.hover"
  | completion => "QueryProxy.completion"

/-- How a query is logged. -/
def taskName : Query → String
  | hover => "provideHover"
  | completion => "provideCompletionItems"

/-- An answer of the server for the editor. -/
def convert (q : Query) (w : Wire) : Except Failure Reply :=
  if w.isNothing then .ok .nothing
  else match q with
    | hover => return .hover (← Hover.ofWire w)
    | completion => return .completions (← CompletionList.ofWire w)

/-- An act on the link. -/
def onLink {α : Type} (a : Act Link α) : Act (Tracker × Link) α := Tracker.onChannel a

/-- The answer to a request came: after a cancellation it is dropped. -/
def answered (method : String) (token : TokenId) (r : Except Failure Reply) : Act Link Step := do
  match r with
  | .error f =>
    if f.isConnection && (← Link.isCancelled token) then
      Act.log logger .debug s!"{method} was cancelled: {f.message}"
      return .done .nothing
    else throw f
  | .ok reply =>
    if ← Link.isCancelled token then
      Act.log logger .debug s!"{method} was cancelled, dropping the result"
      return .done .nothing
    return .done reply

/-- Sends a request and waits for its answer. -/
def request (q : Query) (params : Value) (token : TokenId) : Act (Tracker × Link) Step := do
  Tracker.logParams dataLogger s!"sending {q.method} with param: " params
  match ← Act.outcome (onLink (Link.sendQuery q.method params q.target (some token))) with
  | .error f => onLink (answered q.method token (.error f))
  | .ok f => onLink (Link.awaiting f (.answered q.method token) (answered q.method token))

/-- Turns an answer of the server into one for the editor. -/
def converted {σ : Type} (q : Query) (r : Except Failure Reply) : Act σ Step := do
  return .done (← Act.ofExcept (q.convert (← Act.ofExcept r).asWire))

/-- The parameters of a query. -/
def params (d : Document) (p : Position) : Except Failure Value := do
  let i ← d.toIdentifier.mapError .wire
  let at_ ← p.toWire.mapError .wire
  return Value.table [("textDocument", i.toValue), ("position", at_.toValue)]

/-- Asks the server, if the document takes part. -/
def ask (schemes : List String) (q : Query) (d : Document) (p : Position)
    (token : Option TokenId) : Act (Tracker × Link) Step := do
  if !d.takesPart schemes then
    Act.log logger .debug s!"uri: {d.identity} is not a file"
    return .done .nothing
  Act.log logger .debug s!"{q.taskName} for {d.identity}"
  let t ← match token with
    | some t => pure t
    | none => onLink Link.newToken
  let _ ← Tracker.ensureOpen d
  let params ← Act.ofExcept (params d p)
  Step.calling (q.request params t) (.converted q) (converted q)

/-- A token in the record of a call. -/
def tokenValue (l : Link) (token : Option TokenId) : Value :=
  match token with
  | some t => .thing "CancellationToken" (l.tokens.getD t default).shown
  | none => .null

/-- How a call of `ask` is recorded. -/
def tracedAsk (schemes : List String) (q : Query) (d : Document) (p : Position)
    (token : Option TokenId) : Act (Tracker × Link) Step := do
  let l := (← Act.state).2
  Step.traced logger q.callName
    (fun _ => Log.arguments [d.asValue, p.toValue, tokenValue l token] [])
    (ask schemes q d p token)

end Query

end EditorBridge
