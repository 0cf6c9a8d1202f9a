/-
Playing scripts.

The steps of a script are what somebody at an editor could do, and the editor does them
one after the other.  A query can be cancelled right after it was sent; a step is over
when its query is answered.

A session with a server activates the extension, plays a script or asks what the server
can do, and deactivates the extension whatever became of that.
-/
import EditorBridge.Editor.Extension
import EditorBridge.Program.Console
import EditorBridge.Script.Reader

namespace EditorBridge.Workbench

def playerLogger : Logger := { name := "lspbridge.replay.ReplayRunner" }

end Workbench

namespace ScriptStep

/-- What a step says about a field. -/
def field (s : ScriptStep) (name : String) : Value :=
  match s.data with
  | .record _ fields => (fields.lookup name).getD .null
  | _ => .null

/-- A text that a step says. -/
def text (s : ScriptStep) (name : String) : String := (Config.textOf? (s.field name)).getD ""

end ScriptStep

/-- A number of a position. -/
def Script.coordinate (v : Value) : Int := v.asInt?.getD 0

/-- A position that a step says. -/
def Script.position (v : Value) : Except Failure Position :=
  match v with
  | .list [l, c] => .ok ⟨coordinate l, coordinate c⟩
  | v => .error (Script.refusal v .position)

/-- An edit that a step says: the range goes from `start` to `end`, and is empty without. -/
def Script.editOf (v : Value) : Except Failure (Range × List Char) := do
  let edit : ScriptStep := { place := 0, name := "", data := v }
  let start ← position (edit.field "start")
  let stop ← if (edit.field "end").isNull then pure start else position (edit.field "end")
  return (.between start stop, (edit.text "text").toList)

/-- The nanoseconds of a number of seconds. -/
def Script.nanoseconds (v : Value) : Int :=
  match v with
  | .float x => (x.ratio.1 * 2000000000 + x.ratio.2) / (2 * x.ratio.2)
  | v => v.asInt?.getD 0 * 1000000000

namespace Workbench

open Script (position editOf nanoseconds)

/-- The uri that a step names: of a file, if it names a path. -/
def uriOf (s : ScriptStep) : Act Workbench Uri := do
  match Config.textOf? (s.field "uri") with
  | some u => Act.ofExcept (readUri u)
  | none =>
    let root := FilePath.ofString (← Act.state).root
    Act.ofExcept ((Uri.ofPath (root.join (FilePath.ofString (s.text "path")))).mapError .uri)

/-- The open document that a step names. -/
def openDocumentOf (s : ScriptStep) : Act Workbench DocumentId := do
  let u ← uriOf s
  match ← lookup u with
  | some d => return d
  | none => throw (.script (.notOpen u.toString))

/-- Takes the outcome of a step that was about a document. -/
def deliverFor (s : ScriptStep) (uri : String) (result : Value) : Act Workbench Unit :=
  deliver { place := s.place, kind := s.name, uri := some uri, result }

/-- Opens the document of a step. -/
def playOpen (s : ScriptStep) : Act Workbench Unit := do
  let d ← openDocument {
    name := .uri (← uriOf s), text := (s.text "text").toList
    languageId := some (s.text "language_id"), version := some (s.field "version") }
  deliverFor s (← document d).identity .null

/-- Changes the document of a step. -/
def playChange (s : ScriptStep) : Act Workbench Unit := do
  let d ← openDocumentOf s
  if let some t := Config.textOf? (s.field "text") then
    let _ ← replaceAll (.document d) t.toList
  if let .list (e :: es) := s.field "edits" then
    let edits ← Act.ofExcept ((e :: es).mapM editOf)
    let _ ← edit (.document d) edits
  deliverFor s (← document d).identity (.int (← document d).version)

/-- What a reply is shown as. -/
def resultValue : Reply → Value
  | .hover (some h) => h.toValue
  | .completions (some l) => l.toValue
  | _ => .null

/-- Ends with a failure, or else goes on. -/
def andThen (a : Act Workbench Unit) (go : Act Workbench Step) : Act Workbench Step := do
  a
  go

/-- Begins the query of a step: its token, its outcome and the name of its document. -/
def beginQuery (s : ScriptStep) : Act Workbench (TokenId × FutureId × String) := do
  let d ← openDocumentOf s
  let token ← onLink Link.newToken
  let position ← Act.ofExcept (position (s.field "position"))
  let q : Question := { document := d, position, token }
  let t ← onLink (Link.startTask (if s.name == "hover" then .askHover q
    else .askCompletion q (Config.textOf? (s.field "trigger_character"))))
  return (token, ← onLink (Link.outcomeOf t), (← document d).identity)

/-- The query of a step is answered. -/
def deliverReply (s : ScriptStep) (uri : String) (r : Except Failure Reply) :
    Act Workbench Unit := do
  deliverFor s uri (resultValue (← Act.ofExcept r))

/-- A pause is over. -/
def deliverPause (s : ScriptStep) (r : Except Failure Reply) : Act Workbench Unit := do
  let _ ← Act.ofExcept r
  deliver { place := s.place, kind := s.name }

/-- Waits for some time, or lets the others have a turn if it is none. -/
def pause (time : Int) (rest : Resumption) : Act Link Step := do
  if time ≤ 0 then return .turn [rest]
  let f ← Link.newFuture
  let _ ← Link.later time.toNat (.release f)
  return .wait f [rest]

/-- Plays the steps that are left. -/
def play : List ScriptStep → Act Workbench Step
  | [] => return .done .nothing
  | s :: rest => do
    Act.logBuilt playerLogger .debug fun _ =>
      if s.data.shows then .ok s!"step {s.place}: {s.name} {s.data.shown}" else .error .unshown
    match s.name with
    | "wait" => onLink (pause (nanoseconds (s.field "seconds")) (.waited s rest))
    | "open" => andThen (playOpen s) (play rest)
    | "change" => andThen (playChange s) (play rest)
    | "save" =>
      let d ← save (.document (← openDocumentOf s))
      andThen (deliverFor s (← document d).identity .null) (play rest)
    | "close" =>
      let d ← close (.document (← openDocumentOf s))
      andThen (deliverFor s (← document d).identity .null) (play rest)
    | _ =>
      let (token, answer, uri) ← beginQuery s
      if (s.field "cancel").truthy then return .turn [.interrupting token answer s uri rest]
      Step.calling (onLink (Link.awaiting answer .reply fun r => return .done (← Act.ofExcept r)))
        (.queried s uri rest) fun r => andThen (deliverReply s uri r) (play rest)

/-- Goes on once a query is answered. -/
def queried (s : ScriptStep) (uri : String) (rest : List ScriptStep) (r : Except Failure Reply) :
    Act Workbench Step := andThen (deliverReply s uri r) (play rest)

/-- Goes on once a pause is over. -/
def waited (s : ScriptStep) (rest : List ScriptStep) (r : Except Failure Reply) :
    Act Workbench Step := andThen (deliverPause s r) (play rest)

/-- Cancels a query that was begun, and waits for its answer. -/
def interrupt (token : TokenId) (answer : FutureId) (s : ScriptStep) (uri : String)
    (rest : List ScriptStep) (r : Except Failure Reply) : Act Workbench Step := do
  let _ ← Act.ofExcept r
  onLink (Link.cancelToken token)
  Step.calling (onLink (Link.awaiting answer .reply fun r => return .done (← Act.ofExcept r)))
    (.queried s uri rest) (queried s uri rest)

/-! ### Sessions -/

/-- What the server can do. -/
def serverSummary (greeting : Wire) : Act Workbench Value := do
  let triggers := (← Act.state).extension.triggers
  let capabilities ← Act.ofExcept (Link.part greeting "capabilities")
  let info := greeting.get "serverInfo"
  return Value.table ([("trigger-characters", .list (triggers.map .str)),
    ("capabilities", capabilities.toValue)] ++
    if info.isNothing then [] else [("server-info", info.toValue)])

/-- Ends once the extension is deactivated. -/
def sessionOver (outcome r : Except Failure Reply) : Act Workbench Step := do
  let _ ← Act.ofExcept r
  return .done (← Act.ofExcept outcome)

/-- Deactivates the extension, whatever became of the session. -/
def sessionPlayed (outcome : Except Failure Reply) : Act Workbench Step :=
  Step.calling tracedDeactivate (.sessionOver outcome) (sessionOver outcome)

/-- Goes on once the extension is active. -/
def sessionActive (steps : Option (List ScriptStep)) (r : Except Failure Reply) :
    Act Workbench Step := do
  let greeting ← Act.ofExcept r
  match steps with
  | some steps => Step.calling (play steps) .sessionPlayed sessionPlayed
  | none =>
    let summary ← Act.outcome (serverSummary greeting.asWire)
    sessionPlayed (summary.map .value)

/-- Activates the extension, plays a script or asks what the server can do, and deactivates. -/
def session (steps : Option (List ScriptStep)) : Act Workbench Step :=
  Step.calling tracedActivate (.sessionActive steps) (sessionActive steps)

end Workbench

end EditorBridge
