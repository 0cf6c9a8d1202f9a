/-
What the server is told when something happens to a document.

A document has to be announced before any other message may mention it.  The tracker
announces it when it is needed first, and not again until it is closed or everything is
forgotten.

Only documents with certain schemes take part in what the relay tells.  Whatever is sent about a
document is sent after its announcement; a change of a document that had to be announced first is
sent as its whole text, since the announcement already contains it.
-/
import EditorBridge.Activity.Basic
import EditorBridge.Document.Basic
import EditorBridge.Document.Protocol

namespace EditorBridge

/-! ### Announcing -/

/-- A way to the server. -/
class Channel (κ : Type) where
  /-- Sends a notification. -/
  notify : String → Value → Act κ Unit
  /-- Sends a request. -/
  request : String → Value → Wire.Target → Option TokenId → Act κ FutureId
  /-- Asks to be told when formatting of a document is over. -/
  whenFormatted : FutureId → String → Act κ Unit

/-- The documents that the server knows, by their names on the wire. -/
structure Tracker where
  known : List String := []
  deriving DecidableEq, Repr, Inhabited

namespace Tracker

variable {κ : Type} [Channel κ]

def logger : Logger := { name := "lspbridge.sync.document_tracker.DocumentTracker" }

def dataLogger : Logger := { name := "lspbridge.sync.document_tracker.DocumentTracker_data" }

/-- Whether the server knows a document. -/
def knows (t : Tracker) (identity : String) : Bool := t.known.contains identity

/-- Takes note that the server knows a document. -/
def insert (identity : String) (t : Tracker) : Tracker :=
  if t.knows identity then t else ⟨t.known ++ [identity]⟩

/-- Takes note that the server does not know a document. -/
def erase (identity : String) (t : Tracker) : Tracker := ⟨t.known.filter (· ≠ identity)⟩

/-- The names of the documents that the server knows, sorted. -/
def sorted (t : Tracker) : List String := t.known.mergeSort fun a b => decide (a ≤ b)

/-- An act on the tracker next to a way to the server. -/
def on {α : Type} (a : Act Tracker α) : Act (Tracker × κ) α :=
  Act.on Prod.fst (fun t s => (t, s.2)) a

/-- An act on the way to the server. -/
def onChannel {α : Type} (a : Act κ α) : Act (Tracker × κ) α :=
  Act.on Prod.snd (fun c s => (s.1, c)) a

/-- Changes the tracker. -/
def update (f : Tracker → Tracker) : Act (Tracker × κ) Unit := Act.change fun s => (f s.1, s.2)

/-- Parameters as they are logged. -/
def logParams (l : Logger) (before : String) (params : Value) : Act (Tracker × κ) Unit :=
  Act.logBuilt l .trace fun _ => do
    return before ++ (← (Json.render .spaced params).mapError .unwritable)

/-- The parameters of an announcement. -/
def openParams (d : Document) : Except Failure Value := do
  let item ← d.toItem.mapError .wire
  return Value.table [("textDocument", item.toValue)]

/-- Announces a document if need be.  The answer tells whether the server knew it already. -/
def ensureOpen (d : Document) : Act (Tracker × κ) Bool :=
  Act.traced logger "DocumentTracker.ensure_open" (fun _ => [Log.argument d.asValue]) do
    if (← Act.state).1.knows d.identity then return true
    update (insert d.identity)
    let params ← Act.ofExcept (openParams d)
    logParams dataLogger "File not opened, publishing textDocument/didOpen with param: " params
    try onChannel (Channel.notify "textDocument/didOpen" params)
    catch f => do
      update (erase d.identity)
      throw f
    return false

/-- Forgets everything. -/
def clear : Act Tracker Unit := do
  let n := (← Act.state).known.length
  if n ≠ 0 then Act.log logger .debug s!"forgetting {n} open document(s)"
  Act.change fun _ => {}

end Tracker

/-! ### Relaying -/

/-- An edit of a document as the editor tells of it. -/
structure ChangeEvent where
  document : Document
  changes : List ContentChange

/-- A change event as a value. -/
def ChangeEvent.toValue (e : ChangeEvent) : Value :=
  .record "TextDocumentChangeEvent" [("document", e.document.asValue),
    ("content_changes", .list (e.changes.map (·.toValue)))]

/-- Whether a document with one of the schemes takes part. -/
def Document.takesPart (schemes : List String) (d : Document) : Bool :=
  schemes.contains d.uri.scheme

/-- What a relay is set to. -/
structure Relay where
  schemes : List String := [Uri.fileScheme]
  /-- Whether documents are formatted before they are saved. -/
  formatOnSave : Bool := true
  /-- How documents are formatted. -/
  formatting : Value
  deriving Inhabited

namespace Relay

variable {κ : Type} [Channel κ]

open Tracker (onChannel logParams update)

def logger : Logger := { name := "lspbridge.sync.event_relay.EventRelay" }

def dataLogger : Logger := { name := "lspbridge.sync.event_relay.EventRelay_data" }

/-- How documents are formatted. -/
def formattingOptions (tabSize : Int) (insertSpaces : Bool) : Except Failure Value := do
  let w ← (Wire.make "FormattingOptions" [("tabSize", .ofInt tabSize),
    ("insertSpaces", .raw (.bool insertSpaces))]).mapError .wire
  return w.toValue

/-- Sends a notification. -/
def publish (method : String) (params : Value) : Act (Tracker × κ) Unit := do
  logParams dataLogger s!"publishing {method} with param: " params
  onChannel (Channel.notify method params)

/-- The name of a document as parameters. -/
def identityParams (d : Document) (more : List (String × Value)) : Except Failure Value := do
  let i ← d.toIdentifier.mapError .wire
  return Value.table (("textDocument", i.toValue) :: more)

/-- The parameters of a change. -/
def changeParams (d : Document) (changes : List Wire) : Except Failure Value := do
  let i ← d.toVersionedIdentifier.mapError .wire
  return Value.table [("textDocument", i.toValue),
    ("contentChanges", .list (changes.map (·.toValue)))]

/-- A document was opened: it is announced, even if the server knew it.  It counts as known once
the announcement went out. -/
def opened (r : Relay) (d : Document) : Act (Tracker × κ) Unit := do
  if !d.takesPart r.schemes then return
  publish "textDocument/didOpen" (← Act.ofExcept (Tracker.openParams d))
  update (Tracker.insert d.identity)

/-- A document was changed. -/
def changed (r : Relay) (e : ChangeEvent) : Act (Tracker × κ) Unit := do
  let d := e.document
  if !d.takesPart r.schemes then return
  let changes ← if ← Tracker.ensureOpen d
    then Act.ofExcept ((e.changes.mapM ContentChange.toWire).mapError .wire)
    else Act.ofExcept ((d.toWholeChange.map fun c => [c]).mapError .wire)
  publish "textDocument/didChange" (← Act.ofExcept (changeParams d changes))

/-- Asks the server to format a document.  That it cannot be asked is only recorded. -/
def requestFormatting (r : Relay) (d : Document) : Act (Tracker × κ) Unit := do
  let params ← Act.ofExcept (identityParams d [("options", r.formatting)])
  logParams dataLogger "publishing textDocument/formatting with param: " params
  match ← Act.outcome (onChannel (Channel.request "textDocument/formatting" params
      (.listOf "TextEdit") none)) with
  | .ok f => onChannel (Channel.whenFormatted f d.identity)
  | .error f => if f.isExit then throw f else Act.logFailure logger f

/-- A document was saved. -/
def saved (r : Relay) (d : Document) : Act (Tracker × κ) Unit := do
  if !d.takesPart r.schemes then return
  let _ ← Tracker.ensureOpen d
  if r.formatOnSave then requestFormatting r d
  publish "textDocument/didSave"
    (← Act.ofExcept (identityParams d [("text", .str d.content)]))

/-- A document was closed. -/
def closed (r : Relay) (d : Document) : Act (Tracker × κ) Unit := do
  if !d.takesPart r.schemes then return
  publish "textDocument/didClose" (← Act.ofExcept (identityParams d []))
  update (Tracker.erase d.identity)

/-- Formatting of a document is over. -/
def formatted {σ : Type} (uri : String) (e : Ending Reply) : Act σ Unit :=
  match e with
  | .cancelled => Act.log logger .debug s!"formatting of {uri} was cancelled"
  | .failed f => Act.logFailure logger f
  | .result r =>
    Act.log logger .debug s!"formatting of {uri} returned {r.asWire.items.length} edit(s)"

end Relay

end EditorBridge
