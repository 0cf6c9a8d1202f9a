/-
The extension: it wires the editor to a language server.

An activation starts the server, listens to what happens to documents and registers the
providers; a deactivation undoes all of it.  What the server knows about documents is
forgotten whenever it stops.
-/
import EditorBridge.Editor.Queries

namespace EditorBridge.Workbench

def extensionLogger : Logger := { name := "lspbridge.extension.BridgeExtension" }

def logExtension (text : String) : Act Workbench Unit := Act.log extensionLogger .info text

/-! ### Relays -/

/-- A new tracker. -/
def newTracker : Act Workbench Nat := do
  let n := (← Act.state).trackers.size
  Act.change fun w => { w with trackers := w.trackers.push {} }
  return n

/-- A new relay. -/
def newRelay (r : Relay) (tracker : Nat) : Act Workbench Nat := do
  let n := (← Act.state).relays.size
  Act.change fun w => { w with relays := w.relays.push { relay := r, tracker } }
  return n

/-- A new query proxy. -/
def newProxy (p : Proxy) : Act Workbench Nat := do
  let n := (← Act.state).proxies.size
  Act.change fun w => { w with proxies := w.proxies.push p }
  return n

/-- Changes who hears about documents. -/
def onListeners (f : Event Listener → Event Listener) : Act Workbench Unit :=
  Act.change fun w => { w with
    onOpen := f w.onOpen, onChange := f w.onChange
    onSave := f w.onSave, onClose := f w.onClose }

def setRegistered (n : Nat) (b : Bool) : Act Workbench Unit :=
  Act.change fun w => { w with relays := w.relays.modify n fun r => { r with registered := b } }

/-- Lets a relay listen, unless it does. -/
def registerRelay (n : Nat) : Act Workbench Unit := do
  if !((← Act.state).relays.getD n default).registered then
    onListeners (·.add (.relay n))
    setRegistered n true

/-- Lets a relay listen no more. -/
def unregisterRelay (n : Nat) : Act Workbench Unit := do
  onListeners (·.remove (.relay n))
  setRegistered n false

/-- Something that is there only while the extension is active. -/
def required {α : Type} (part : String) (a : Option α) : Act Workbench α :=
  match a with
  | some a => return a
  | none => throw (.noAttribute "NoneType" part)

/-- The relay of the extension. -/
def theRelay (part : String) : Act Workbench Nat := do
  required part (← Act.state).extension.relay

/-- The query proxy of the extension. -/
def theProxy (part : String) : Act Workbench Nat := do
  required part (← Act.state).extension.proxy

/-- The tracker of the extension. -/
def theTracker (part : String) : Act Workbench Nat := do
  required part (← Act.state).extension.tracker

/-- Forgets what the server knows. -/
def clearTracker (n : Nat) : Act Workbench Unit := onTracker n (Tracker.on Tracker.clear)

/-! ### The end of the server -/

/-- Somebody hears that the language client has stopped. -/
def hearStopped : StopListener → Act Workbench Unit
  | .observer => do
    onLink (Act.change fun l => { l with stops := l.stops + 1 })
    if let some f := (← Act.state).link.noteFails then throw f
  | .extension => do
    if let some t := (← Act.state).extension.tracker then
      logExtension "language server stopped, open documents will be announced again"
      clearTracker t

/-- Lets everybody hear that the language client has stopped. -/
def fireStopped : Act Workbench (List (Except Failure Unit)) := do
  (← Act.state).onStop.dispatch (fun _ => return true) hearStopped

/-- The server process of the language client is gone. -/
def serverGone (exited : FutureId) : Act Workbench Unit := do
  onLink (Link.processGone exited)
  for r in ← fireStopped do
    if let .error f := r then Act.logFailure Client.logger f

/-! ### Deactivation -/

/-- Forgets an activation. -/
def forgetActivation : Act Workbench Unit := do
  Act.change fun w => { w with onStop := w.onStop.remove .extension }
  if let some t := (← Act.state).extension.tracker then clearTracker t
  onExtension fun e => { e with tracker := none, relay := none, proxy := none, triggers := [] }

/-- Goes on once the language client is stopped. -/
def stopped (r : Except Failure Reply) : Act Workbench Step := do
  forgetActivation
  let _ ← Act.ofExcept r
  return .done .nothing

/-- Undoes an activation. -/
def deactivate : Act Workbench Step := do
  if let some n := (← Act.state).extension.relay then unregisterRelay n
  let rs := (← Act.state).extension.registrations
  onExtension fun e => { e with registrations := [] }
  for (q, r) in rs do unregister q r
  Step.calling (onLink Link.disconnect) .stopped stopped

/-- How a call of `deactivate` is recorded. -/
def tracedDeactivate : Act Workbench Step :=
  Step.traced extensionLogger "BridgeExtension.deactivate" (fun _ => []) deactivate

/-! ### Activation -/

/-- Everything, as far as a selector goes. -/
def everything : Selector := [.language "*"]

/-- Registers a provider until the next deactivation. -/
def provide (q : Query) (r : Registration) : Act Workbench Unit := do
  register q r
  onExtension fun e => { e with registrations := e.registrations ++ [(q, r)] }

/-- Goes on once an activation that failed is undone. -/
def failed (f : Failure) (r : Except Failure Reply) : Act Workbench Step := do
  let _ ← Act.ofExcept r
  throw f

/-- Undoes an activation that failed. -/
def giveUp (f : Failure) : Act Workbench Step :=
  Step.calling tracedDeactivate (.failed f) (failed f)

/-- Goes on once the server is ready. -/
def ready (r : Except Failure Reply) : Act Workbench Step := do
  match r with
  | .error f => giveUp f
  | .ok reply =>
    let triggers := Link.triggersOf (← onLink Link.serverGreeting)
    onExtension fun e => { e with triggers }
    logExtension ("trigger characters: " ++ (Value.list (triggers.map .str)).shown)
    provide .completion ⟨everything, .proxy (← theProxy "completion"), triggers⟩
    return .done reply

/-- Listens to documents and shows hovers. -/
def listen : Act Workbench Unit := do
  logExtension "started lspbridge."
  registerRelay (← theRelay "register")
  provide .hover ⟨everything, .proxy (← theProxy "hover"), []⟩

/-- Goes on once the language client is started. -/
def started (r : Except Failure Reply) : Act Workbench Step := do
  match ← Act.outcome (do let _ ← Act.ofExcept r; listen) with
  | .error f => giveUp f
  | .ok () => Step.calling (onLink Link.connected) .ready ready

/-- Sets up what an activation needs. -/
def setUp : Act Workbench Unit := do
  logExtension "starting lspbridge..."
  let config := (← Act.state).extension.config
  let schemes := Config.schemes config
  let tracker ← newTracker
  onExtension fun e => { e with tracker := some tracker }
  let formatting ← Act.ofExcept
    (Relay.formattingOptions (Config.tabSize config) (Config.insertSpaces config))
  let relay ← newRelay
    { schemes, formatOnSave := Config.formatOnSave config, formatting } tracker
  let proxy ← newProxy { schemes, tracker }
  onExtension fun e => { e with relay := some relay, proxy := some proxy }
  Act.change fun w => { w with onStop := w.onStop.add .extension }

/-- Starts the language client for an activation. -/
def startUp : Act Workbench Step := do
  setUp
  Step.calling (onLink Link.connect) .started started

/-- Goes on once an earlier activation is undone. -/
def cleared (r : Except Failure Reply) : Act Workbench Step := do
  let _ ← Act.ofExcept r
  startUp

/-- Activates the extension. -/
def activate : Act Workbench Step := do
  if (← Act.state).extension.tracker.isSome then
    Step.calling tracedDeactivate .cleared cleared
  else startUp

/-- How a call of `activate` is recorded. -/
def tracedActivate : Act Workbench Step :=
  Step.traced extensionLogger "BridgeExtension.activate" (fun _ => []) activate

end EditorBridge.Workbench
