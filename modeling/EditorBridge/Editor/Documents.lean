/-
Opening, editing, saving and closing documents.

Whoever listens hears about each of these at once, one after the other.  A listener that
fails is recorded and does not keep the others from hearing.
-/
import EditorBridge.Editor.State

namespace EditorBridge.Workbench

/-- The logger of the editor. -/
def logger : Logger := { name := "lspbridge.editor.workspace.EditorWorkspace" }

/-- The editor in the record of a call. -/
def asValue : Value :=
  .thing "EditorWorkspace" "<lspbridge.editor.workspace.EditorWorkspace object at 0x>"

/-! ### Listeners -/

/-- Notes something. -/
def notice (s : Sighting) : Act Workbench Unit :=
  Act.change fun w => { w with sightings := w.sightings ++ [s] }

/-- An observer notes what it hears, and fails if it is meant to. -/
def observe (n : Nat) (o : Occasion) (d : DocumentId) : Act Workbench Unit := do
  let observer := (← Act.state).observers.getD n default
  notice (.heard observer.name o (← document d))
  if let some f := observer.failure then throw f

/-- A relay hears of something. -/
def relay (n : Nat) (call : String) (argument : Value)
    (a : Relay → Act (Tracker × Link) Unit) : Act Workbench Unit := do
  let r := (← Act.state).relays.getD n default
  Act.traced Relay.logger ("EventRelay." ++ call) (fun _ => Log.arguments [asValue, argument] [])
    (onTracker r.tracker (a r.relay))

/-- A listener hears that a document was opened. -/
def hearOpened (d : DocumentId) : Listener → Act Workbench Unit
  | .external n => observe n .opened d
  | .relay n => do
    let doc ← document d
    relay n "_on_did_open" doc.asValue fun r => r.opened doc

/-- A listener hears that a document was changed. -/
def hearChanged (d : DocumentId) (changes : List ContentChange) : Listener → Act Workbench Unit
  | .external n => observe n .changed d
  | .relay n => do
    let e : ChangeEvent := ⟨← document d, changes⟩
    relay n "_on_did_change" e.toValue fun r => r.changed e

/-- A listener hears that a document was saved. -/
def hearSaved (d : DocumentId) : Listener → Act Workbench Unit
  | .external n => observe n .saved d
  | .relay n => do
    let doc ← document d
    relay n "_on_did_save" doc.asValue fun r => r.saved doc

/-- A listener hears that a document was closed. -/
def hearClosed (d : DocumentId) : Listener → Act Workbench Unit
  | .external n => observe n .closed d
  | .relay n => do
    let doc ← document d
    relay n "_on_did_close" doc.asValue fun r => r.closed doc

/-- Lets everybody hear, and records who failed. -/
def fire (e : Event Listener) (hear : Listener → Act Workbench Unit) : Act Workbench Unit := do
  for r in ← e.dispatch (fun _ => return true) hear do
    if let .error f := r then Act.logFailure logger f

/-! ### Documents -/

/-- How somebody names a document: by its uri, by a text that is read as one, or directly. -/
inductive Name where
  | text (s : String)
  | uri (u : Uri)
  | document (d : DocumentId)
  deriving Repr

/-- A name in the record of a call. -/
def Name.asValue (w : Workbench) : Name → Value
  | .text s => .str s
  | .uri u => .thing "Uri" u.shown
  | .document d => (w.documents.getD d default).asValue

/-- A name in a message. -/
def Name.plain : Name → String
  | .text s => s
  | .uri u => u.toString
  | .document d => toString d

/-- The open document of a uri. -/
def lookup (u : Uri) : Act Workbench (Option DocumentId) := return (← Act.state).shelf.lookup u

/-- Reads a uri. -/
def readUri (s : String) : Except Failure Uri := (Uri.ofText s).mapError .uri

/-- The document that a name stands for, if there is one. -/
def find? : Name → Act Workbench (Option DocumentId)
  | .text s => do lookup (← Act.ofExcept (readUri s))
  | .uri u => lookup u
  | .document d => return some d

/-- The document that a name stands for. -/
def resolve (n : Name) : Act Workbench DocumentId := do
  match ← find? n with
  | some d => return d
  | none => throw (.notOpen n.plain)

/-- A call that is recorded. -/
def call {α : Type} (name : String) (arguments : Workbench → List String) (a : Act Workbench α) :
    Act Workbench α := do
  let w ← Act.state
  Act.traced logger ("EditorWorkspace." ++ name) (fun _ => arguments w) a

/-- What is said when a document is opened; what is not said is left to the editor. -/
structure Opening where
  name : Name
  text : List Char
  languageId : Option String := none
  version : Option Value := none

/-- What was said in the record of a call. -/
def Opening.arguments (o : Opening) (w : Workbench) : List String :=
  Log.arguments [o.name.asValue w, .str (String.ofList o.text)]
    ((o.languageId.elim [] fun l => [("language_id", .str l)]) ++
      o.version.elim [] fun v => [("version", v)])

/-- Opens a document; one that is open stays as it is. -/
def openDocument (o : Opening) : Act Workbench DocumentId :=
  call "open_text_document" o.arguments do
    let uri ← match o.name with
      | .text s => Act.ofExcept (readUri s)
      | .uri u => pure u
      | .document d => pure (← document d).uri
    if let some d ← lookup uri then return d
    let d := (← Act.state).documents.size
    let doc := Document.opened uri o.text (o.languageId.getD "plaintext")
      ((o.version.bind Value.asInt?).getD 1)
    Act.change fun w => { w with documents := w.documents.push doc, shelf := w.shelf ++ [(uri, d)] }
    fire (← Act.state).onOpen (hearOpened d)
    return d

/-- Makes an edit of a document, and tells what it did. -/
def applyEdit (d : DocumentId) (e : Range × List Char) : Act Workbench ContentChange := do
  let change ← Act.ofExcept (Document.orNoSuchLine ((← document d).changeOf? e.1 e.2))
  onDocument d (Document.splice e.1 e.2)
  return change

/-- Edits a document: each edit is made on the text that the ones before it left, and all of them
are one change. -/
def edit (n : Name) (edits : List (Range × List Char)) :
    Act Workbench (DocumentId × List ContentChange) :=
  call "edit" (fun w => Log.arguments [n.asValue w,
      .list (edits.map fun e => .tuple [e.1.toValue, .str (String.ofList e.2)])] []) do
    let d ← resolve n
    let changes ← edits.mapM (applyEdit d)
    onDocument d (Act.change fun doc => { doc with version := doc.version + 1 })
    fire (← Act.state).onChange (hearChanged d changes)
    return (d, changes)

/-- Puts a text into a document. -/
def insert (n : Name) (p : Position) (text : List Char) :
    Act Workbench (DocumentId × List ContentChange) := edit n [(.between p p, text)]

/-- Replaces the whole text of a document. -/
def replaceAll (n : Name) (text : List Char) :
    Act Workbench (DocumentId × List ContentChange) := do
  let d ← resolve n
  edit (.document d) [((← document d).fullRange, text)]

/-- Saves a document. -/
def save (n : Name) : Act Workbench DocumentId :=
  call "save_text_document" (fun w => Log.arguments [n.asValue w] []) do
    let d ← resolve n
    onDocument d (Act.change Document.save)
    fire (← Act.state).onSave (hearSaved d)
    return d

/-- Closes a document. -/
def close (n : Name) : Act Workbench DocumentId :=
  call "close_text_document" (fun w => Log.arguments [n.asValue w] []) do
    let d ← resolve n
    let uri := (← document d).uri
    Act.change fun w => { w with shelf := w.shelf.filter (·.1 ≠ uri) }
    onDocument d (Act.change fun doc => { doc with closed := true })
    fire (← Act.state).onClose (hearClosed d)
    return d

end EditorBridge.Workbench
