/-
The sections of a configuration, and what they mean for the server, the client and the documents.

Each section is a record class whose keys have hyphens; its instances are checked
against the shapes of their fields.  A configuration has one of each.
-/
import EditorBridge.Link.State
import EditorBridge.Schema.Decode

namespace EditorBridge.Config

open Schema

/-! ### Sections -/

/-- An instance of a class in which every field has its default. -/
def defaultsOf (c : RecordClass) : Value :=
  .record c.name (c.fields.map fun f => (f.name, f.default.getD .null))

/-- How the language server is started. -/
def serverSection : RecordClass where
  name := "ServerConfig"
  hyphenated := true
  checked := true
  fields := [
    { name := "command", shape := .str, default := some (.str "efm-langserver") },
    { name := "args", shape := .list .str, default := some (.list []) },
    { name := "debug_command", shape := .optional .str, default := some .null },
    { name := "debug_args", shape := .optional (.list .str), default := some .null },
    { name := "env", shape := .dict .str .str, default := some (.dict []) },
    { name := "cwd", shape := .optional .str, default := some .null },
    { name := "initialization_options", shape := .optional (.dict .str .any),
      default := some .null }]

/-- Which documents take part. -/
def documentsSection : RecordClass where
  name := "DocumentsConfig"
  hyphenated := true
  checked := true
  fields := [
    { name := "schemes", shape := .list .str, default := some (.list [.str "file"]) }]

/-- Whether and how documents are formatted when they are saved. -/
def formattingSection : RecordClass where
  name := "FormattingConfig"
  hyphenated := true
  checked := true
  fields := [
    { name := "on_save", shape := .bool, default := some (.bool true) },
    { name := "tab_size", shape := .int, default := some (.int 4) },
    { name := "insert_spaces", shape := .bool, default := some (.bool true) }]

/-- What the client says about itself. -/
def clientSection : RecordClass where
  name := "ClientConfig"
  hyphenated := true
  checked := true
  fields := [
    { name := "name", shape := .str, default := some (.str "lspbridge") },
    { name := "debug", shape := .bool, default := some (.bool false) },
    { name := "trace", shape := .optional .str, default := some .null }]

/-- A whole configuration. -/
def configuration : RecordClass where
  name := "BridgeConfig"
  hyphenated := true
  checked := true
  fields := [
    { name := "server", shape := .record "ServerConfig",
      default := some (defaultsOf serverSection) },
    { name := "documents", shape := .record "DocumentsConfig",
      default := some (defaultsOf documentsSection) },
    { name := "formatting", shape := .record "FormattingConfig",
      default := some (defaultsOf formattingSection) },
    { name := "client", shape := .record "ClientConfig",
      default := some (defaultsOf clientSection) }]

/-- The classes of a configuration. -/
def classes : List RecordClass :=
  [configuration, serverSection, documentsSection, formattingSection, clientSection]

/-! ### Meaning -/

/-- The configuration in which nothing is set. -/
def defaults : Value := defaultsOf configuration

/-- What a section says about a field. -/
def fieldOf (config : Value) (section_ field : String) : Value :=
  match config with
  | .record _ sections => match sections.lookup section_ with
    | some (.record _ fields) => (fields.lookup field).getD .null
    | _ => .null
  | _ => .null

/-- A text that may be missing. -/
def textOf? : Value → Option String
  | .str s => some s
  | _ => none

/-- A list of texts. -/
def textsOf : Value → List String
  | .list vs => vs.filterMap textOf?
  | _ => []

/-- Entries whose keys and values are texts. -/
def entriesOf : Value → List (String × String)
  | .dict es => es.filterMap fun e => match e with
    | (.str k, .str v) => some (k, v)
    | _ => none
  | _ => []

/-- The schemes of the documents that take part. -/
def schemes (config : Value) : List String := textsOf (fieldOf config "documents" "schemes")

/-- Whether documents are formatted before they are saved. -/
def formatOnSave (config : Value) : Bool := (fieldOf config "formatting" "on_save").truthy

/-- The width of a tabulator. -/
def tabSize (config : Value) : Int := ((fieldOf config "formatting" "tab_size").asInt?).getD 0

/-- Whether lines are indented by spaces. -/
def insertSpaces (config : Value) : Bool := (fieldOf config "formatting" "insert_spaces").truthy

/-- Whether the server is run for debugging. -/
def debugs (config : Value) : Bool := (fieldOf config "client" "debug").truthy

/-- A program with the environment and the folder that the server section tells. -/
def serverProgram (config : Value) (command : String) (args : List String) : Executable :=
  let env := entriesOf (fieldOf config "server" "env")
  { command, args
    env := if env.isEmpty then none else some env
    cwd := textOf? (fieldOf config "server" "cwd") }

/-- How to run the server. -/
def runProgram (config : Value) : Executable :=
  serverProgram config ((textOf? (fieldOf config "server" "command")).getD "")
    (textsOf (fieldOf config "server" "args"))

/-- How to run the server for debugging, if that is told; what is not told is as usual. -/
def debugProgram (config : Value) : Option Executable :=
  let command := fieldOf config "server" "debug_command"
  let args := fieldOf config "server" "debug_args"
  if command.isNull && args.isNull then none
  else
    let usual := runProgram config
    some (serverProgram config
      (if command.truthy then (textOf? command).getD "" else usual.command)
      (if args.isNull then usual.args else textsOf args))

/-- What the client tells the server about itself. -/
def clientOptions (config : Value) (root : Option String) : ClientOptions where
  name := fieldOf config "client" "name"
  root := root <|> textOf? (fieldOf config "server" "cwd")
  initialization := fieldOf config "server" "initialization_options"
  trace := fieldOf config "client" "trace"

/-- A language client as configured. -/
def client (config : Value) (root : Option String) : Client where
  run := runProgram config
  debugRun := debugProgram config
  debug := debugs config
  options := clientOptions config root

/-- A text that may be missing, as a value. -/
def ofText? (s : Option String) : Value := s.elim .null .str

/-- A way to run the server as a value. -/
def programValue (e : Executable) : Value :=
  .record "Executable" [("command", .str e.command), ("args", .list (e.args.map .str)),
    ("env", e.env.elim .null fun es => Value.table (es.map fun e => (e.1, .str e.2))),
    ("cwd", ofText? e.cwd)]

/-- The ways to run the server as a value. -/
def serverValue (config : Value) : Value :=
  .record "ServerOptions" [("run", programValue (runProgram config)),
    ("debug", (debugProgram config).elim .null programValue)]

/-- What the client tells about itself as a value. -/
def clientValue (o : ClientOptions) : Value :=
  .record "ClientOptions" [("name", o.name), ("root_path", ofText? o.root),
    ("initialization_options", o.initialization), ("trace", o.trace)]

end EditorBridge.Config
