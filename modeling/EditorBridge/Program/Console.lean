/-
What the program prints.

Data can be printed as TOML, as JSON, or as they are shown in messages.  Messages about
the progress, errors and the journal go to the error stream.
-/
import EditorBridge.Editor.State
import EditorBridge.Feature.Answers
import EditorBridge.Schema.Decode
import EditorBridge.Toml.Writer

namespace EditorBridge

namespace Outcome

/-- An outcome as a value. -/
def toValue (o : Outcome) : Value :=
  .record "ReplayResult" [("step", .int o.place), ("kind", .str o.kind),
    ("uri", Config.ofText? o.uri), ("result", o.result)]

end Outcome

namespace Format

/-- The classes of what is printed. -/
def catalog : Schema.Catalog := ⟨Config.classes ++ Feature.classes⟩

/-- The formats by name. -/
def names : List (String × Format) :=
  [("toml", .toml), ("json", .json), ("json-indent", .indentedJson), ("text", .text)]

mutual

/-- A value without entries and items that are null, which TOML does not know. -/
def withoutNulls : Value → Value
  | .dict es => .dict (entriesWithoutNulls es)
  | .list vs => .list (itemsWithoutNulls vs)
  | v => v

def entriesWithoutNulls : List (Value × Value) → List (Value × Value)
  | [] => []
  | (k, v) :: es =>
    if v.isNull then entriesWithoutNulls es else (k, withoutNulls v) :: entriesWithoutNulls es

def itemsWithoutNulls : List Value → List Value
  | [] => []
  | v :: vs => if v.isNull then itemsWithoutNulls vs else withoutNulls v :: itemsWithoutNulls vs

end

/-- Data as a table: of a record, what differs from its defaults. -/
def asTable (v : Value) : Value :=
  withoutNulls <| match v with
    | .dict _ => v
    | v => (Schema.asDict? catalog true v).getD (Value.table [("value", v)])

/-- Data in a format. -/
def render (f : Format) (v : Value) : Except Failure String :=
  match f with
  | toml => (Toml.write (asTable v)).mapError fun
    | .tooManyDigits => .unshown
    | e => .raised "TypeError" (some e.message)
  | json => (Schema.asJson catalog .spaced v).mapError .unwritable
  | indentedJson => (Schema.asJson catalog .indentedBy4 v).mapError .unwritable
  | text => if v.plainShows then .ok v.plain else .error .unshown

end Format

namespace Console

/-- Prints a line of data, unless it is empty. -/
def print (c : Console) (usual : Format) (v : Value) : Except Failure Console := do
  let s ← (c.format.getD usual).render v
  return if s = "" then c else { c with out := c.out ++ s ++ "\n" }

/-- Prints a message about the progress, if that is wanted. -/
def progress (c : Console) (message : String) : Console :=
  if c.verbose then { c with err := c.err ++ message ++ "\n" } else c

/-- Prints an error. -/
def error (c : Console) (message : String) : Console :=
  { c with err := c.err ++ "Error: " ++ message ++ "\n" }

end Console

/-- A record of the journal as a line. -/
def Record.line (r : Record) : String := s!"{r.logger}:{Level.name r.level}: {r.text}\n"

namespace Workbench

/-- Moves the journal to the console. -/
def flushJournal : Act Workbench Unit := do
  let lines := (← get).journal.records.map Record.line
  modify fun e => { e with
    journal := { e.journal with records := [] }
    state := { e.state with
      console := e.state.console.map fun c =>
        if c.logs then { c with err := c.err ++ String.join lines } else c } }

/-- Something that is done with the console, if there is one. -/
def onConsole (f : Console → Except Failure Console) : Act Workbench Unit := do
  if (← Act.state).console.isSome then
    flushJournal
    if let some c := (← Act.state).console then
      let c ← Act.ofExcept (f c)
      Act.change fun w => { w with console := some c }

/-- Takes the outcome of a step: it is kept, and printed if there is a console. -/
def deliver (o : Outcome) : Act Workbench Unit := do
  Act.change fun w => { w with outcomes := w.outcomes ++ [o] }
  onConsole fun c => do
    let uri := o.uri.getD ""
    let c := c.progress s!"step {o.place}: {o.kind} {uri}"
    if o.result.isNull then return c else c.print .json o.toValue

end Workbench

end EditorBridge
