/-
Where a configuration comes from.

A configuration has a file of its own, or stands in a table of the file that describes a
project.  Without a path it is searched from a folder upwards; in every folder its own
file comes first.  A text that the stack of the machine is not deep enough for can neither
be searched nor loaded.
-/
import EditorBridge.Config.Options
import EditorBridge.FileTree
import EditorBridge.Toml.Reader

namespace EditorBridge.Config

/-- The file of a configuration alone. -/
def ownFile : String := "lspbridge.toml"

/-- The file of a project. -/
def projectFile : String := "pyproject.toml"

/-- The name of the table in the file of a project. -/
def toolName : String := "lspbridge"

/-- The classes of a configuration. -/
def catalog : Schema.Catalog := ⟨classes⟩

/-- An entry of what has to be a table; without the entry an empty table. -/
def entryOf (key : String) (v : Value) : Except Failure Value :=
  match v with
  | .dict es => .ok ((Value.find? (.str key) es).getD (.dict []))
  | v => .error (.noAttribute v.typeName "get")

/-- A configuration from data, or from the data of a tool among others. -/
def ofData (tool : Option String) (v : Value) : Except Failure Value := do
  let v ← match tool with
    | none | some "" => pure v
    | some t => do entryOf t (← entryOf "tool" v)
  (Schema.fromDict catalog (.record configuration.name) true v).mapError .schema

/-- The data of a text. -/
def readData (text : String) : Except Failure Value :=
  (Toml.parse text).mapError fun
    | .malformed => .malformedConfig
    | .tooManyDigits n => .tooManyDigits n

/-- A configuration from a text. -/
def ofText (tool : Option String) (text : String) : Except Failure Value := do
  ofData tool (← readData text)

/-- Whether a text has a part. -/
def hasPart (part : List Char) : List Char → Bool
  | [] => part.isEmpty
  | c :: r => part.isPrefixOf (c :: r) || hasPart part r

/-- Whether something that was read from a file has an item or an entry of a name, or is a text
with the name in it. -/
def mentions (name : String) (v : Value) : Except Failure Bool :=
  match v with
  | .dict es => .ok (Value.find? (.str name) es).isSome
  | .list vs => .ok (vs.any fun x => (Value.str name).same x)
  | .str s => .ok (hasPart name.toList s.toList)
  | .moment m => .error (.notIterable ("datetime." ++ (Value.moment m).typeName))
  | v => .error (.notIterable v.typeName)

/-- What is done with a text, if the stack is deep enough for it. -/
def within {α : Type} (deepEnough : String → Bool) (f : String → Except Failure α)
    (text : String) : Except Failure α :=
  if deepEnough text then f text else .error .exhausted

/-- Whether the file of a project has a table for the tool.  A file that cannot be read, or is not
well formed, has none. -/
def hasSection (m : Machine) (tree : FileTree) (p : FilePath) : Except Failure Bool :=
  match tree.readText p >>= within m.searches readData with
  | .error f => if f.isSystem then .ok false else match f with
    | .malformedConfig => .ok false
    | f => .error f
  | .ok v => do mentions toolName (← entryOf "tool" v)

/-- The file of a configuration in the first of the folders that has one. -/
def findIn (m : Machine) (tree : FileTree) : List FilePath → Except Failure (Option FilePath)
  | [] => .ok none
  | folder :: folders => do
    let own := folder.child ownFile
    let project := folder.child projectFile
    if tree.isFile own then return some own
    else if tree.isFile project then
      if ← hasSection m tree project then return some project else findIn m tree folders
    else findIn m tree folders

/-- The file of a configuration in a folder or in one of those around it. -/
def find (tree : FileTree) (start : FilePath) (m : Machine := {}) :
    Except Failure (Option FilePath) :=
  findIn m tree start.andParents

/-- A configuration from a file. -/
def loadFile (m : Machine) (tree : FileTree) (p : FilePath) : Except Failure Value :=
  let tool := if p.name = projectFile then some toolName else none
  match tree.readText p >>= within m.loads (ofText tool) with
  | .ok v => .ok v
  | .error f =>
    if f.isSystem || f.isAboutValue then
      .error (.config p.toString s!"Reading \"{p}\" failed: {f.message}")
    else .error f

/-- The configuration from a file, or from the file that is found from a folder upwards, or the
defaults. -/
def load (tree : FileTree) (path : Option FilePath) (start : FilePath) (m : Machine := {}) :
    Except Failure (Value × Option FilePath) := do
  match path with
  | some p => return (← loadFile m tree p, some p)
  | none =>
    match ← find tree start m with
    | some p => return (← loadFile m tree p, some p)
    | none => return (defaultsOf configuration, none)

end EditorBridge.Config
