/-
Reading scripts.

A script is a list of steps, or a table with one.  A step is a table with one key, which
names the kind of the step; a pause may be given by its seconds alone.  What is no step is
shown in the error about it, and if that cannot be done there is another error.
-/
import EditorBridge.Activity.Basic
import EditorBridge.Script.Steps
import EditorBridge.Yaml.Reader

namespace EditorBridge.Script

/-- The classes of steps. -/
def catalog : Schema.Catalog := ⟨classes⟩

/-- The class of every kind of step. -/
def stepClasses : List (String × Schema.RecordClass) :=
  stepNames.zip [openStep, changeStep, saveStep, closeStep, hoverStep, completionStep, waitStep]

/-- What a step is given, as a table. -/
def argumentsOf (kind : String) (v : Value) : Value :=
  match v with
  | .null => .dict []
  | .int _ | .float _ | .bool _ => if kind = "wait" then Value.table [("seconds", v)] else v
  | v => v

/-- Whether a step has to name a document and does not. -/
def namesNone (step : Value) : Bool :=
  match step with
  | .record _ fields =>
    (fields.lookup "uri").any Value.isNull && (fields.lookup "path").any Value.isNull
  | _ => false

/-- The failure for an item that is shown in the error about it. -/
def refusal (v : Value) (e : String → Error) : Failure :=
  if v.shows then .script (e v.shown) else .unshown

/-- A step, given its index. -/
def readStep (i : Nat) (v : Value) : Except Failure ScriptStep :=
  match v with
  | .dict [(key, args)] =>
    let cls? : Option (String × Schema.RecordClass) := match key with
      | .str kind => (stepClasses.lookup kind).map (kind, ·)
      | _ => none
    match cls? with
    | none => .error (refusal key (.unknownStep i))
    | some (kind, cls) =>
      match Schema.fromDict catalog (.record cls.name) true (argumentsOf kind args) with
      | .error .tooLarge => .error (.schema .tooLarge)
      | .error e => .error (.script (.arguments i kind e))
      | .ok step =>
        if namesNone step then .error (.script (.noDocument i kind))
        else .ok { place := i, name := kind, data := step }
  | v => .error (refusal v (.notOneKey i))

/-- The steps of what was read from a script. -/
def ofData (v : Value) : Except Failure (List ScriptStep) :=
  let v := match v with
    | .dict es =>
      let steps := (Value.find? (.str "steps") es).getD .null
      if steps.truthy then steps else .list []
    | .null => .list []
    | v => v
  match v with
  | .list vs => vs.zipIdx.mapM fun (v, i) => readStep i v
  | _ => .error (.script .notAList)

/-- Reads a script. -/
def parse (text : String) : Except Failure (List ScriptStep) := do
  let v ← (Yaml.parse text).mapError fun
    | .malformed => .script .malformed
    | e => .scalar e
  ofData v

end EditorBridge.Script
