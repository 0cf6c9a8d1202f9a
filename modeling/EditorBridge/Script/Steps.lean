/-
The steps of a replay script as record classes, and what may be wrong with a script.

Every step but a pause names a document, by its uri or by a path below the root of
the replay.
-/
import EditorBridge.Schema.Decode

namespace EditorBridge.Script

open Schema

/-- The fields that name a document. -/
def documentFields : List Field := [
  { name := "uri", shape := .optional .str, default := some .null },
  { name := "path", shape := .optional .str, default := some .null }]

/-- A step class: the fields that name a document and some more. -/
def stepClass (name : String) (fields : List Field) : RecordClass :=
  { name := name, fields := documentFields ++ fields, hyphenated := true }

/-- A step that only names a document. -/
def documentStep : RecordClass := stepClass "DocumentStep" []

/-- A position as a list of line and column. -/
def positionField : Field :=
  { name := "position", shape := .list .int, default := some (.list [.int 0, .int 0]) }

/-- Whether a request is cancelled right after it was sent. -/
def cancelField : Field := { name := "cancel", shape := .bool, default := some (.bool false) }

def openStep : RecordClass := stepClass "OpenStep" [
  { name := "text", shape := .str, default := some (.str "") },
  { name := "language_id", shape := .str, default := some (.str "plaintext") },
  { name := "version", shape := .int, default := some (.int 1) }]

/-- One edit of a change: the range from `start` to `end` is replaced. -/
def editSpec : RecordClass where
  name := "EditSpec"
  hyphenated := true
  fields := [
    { name := "start", shape := .list .int },
    { name := "end", shape := .optional (.list .int), default := some .null },
    { name := "text", shape := .str, default := some (.str "") }]

def changeStep : RecordClass := stepClass "ChangeStep" [
  { name := "text", shape := .optional .str, default := some .null },
  { name := "edits", shape := .list (.record "EditSpec"), default := some (.list []) }]

def saveStep : RecordClass := stepClass "SaveStep" []

def closeStep : RecordClass := stepClass "CloseStep" []

def hoverStep : RecordClass := stepClass "HoverStep" [positionField, cancelField]

def completionStep : RecordClass := stepClass "CompletionStep" [
  positionField,
  { name := "trigger_character", shape := .optional .str, default := some .null },
  cancelField]

def waitStep : RecordClass where
  name := "WaitStep"
  hyphenated := true
  fields := [{ name := "seconds", shape := .float, default := some (.float (.zero false)) }]

/-- The classes of the steps and of what they hold. -/
def classes : List RecordClass :=
  [openStep, editSpec, changeStep, saveStep, closeStep, hoverStep, completionStep, waitStep]

/-! ### What may be wrong -/

/-- The names of the steps, in the order in which messages give them. -/
def stepNames : List String := ["open", "change", "save", "close", "hover", "completion", "wait"]

/-- What is wrong with a script. -/
inductive Error where
  /-- The text is not well formed. -/
  | malformed
  /-- Neither a list of steps nor a table with one. -/
  | notAList
  /-- A step that is no table with one key: its index and how it is shown. -/
  | notOneKey (index : Nat) (shown : String)
  /-- A step of a kind that does not exist. -/
  | unknownStep (index : Nat) (shown : String)
  /-- A step whose arguments do not fit. -/
  | arguments (index : Nat) (kind : String) (e : Schema.Error)
  /-- A step that names no document. -/
  | noDocument (index : Nat) (kind : String)
  /-- A position that is no pair of numbers. -/
  | position (shown : String)
  /-- A document that is not open when its step is played. -/
  | notOpen (uri : String)
  deriving Repr

/-- The message of an error. -/
def Error.message : Error → String
  | malformed => "Invalid yaml: "
  | notAList => "A replay script must be a list of steps."
  | notOneKey i s => s!"Step {i}: expected a mapping with exactly one key, got {s}."
  | unknownStep i s => s!"Step {i}: unknown step {s}, expected one of " ++
      String.intercalate ", " stepNames ++ "."
  | arguments i k e => s!"Step {i} ({k}): " ++ e.message
  | noDocument i k => s!"Step {i} ({k}): either \x60uri\x60 or \x60path\x60 is required."
  | position s => s!"A position must be a list of line and character, got {s}."
  | notOpen u => s!"Document {u} is not open."

end EditorBridge.Script
