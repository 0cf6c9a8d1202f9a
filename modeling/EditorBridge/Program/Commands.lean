/-
The program: what its commands do.

Every command works on a configuration, and the ones that need the server have a session
with it.  Results are printed on the output stream; messages, errors and the journal go
to the error stream.
-/
import EditorBridge.Config.Files
import EditorBridge.Editor.Run
import EditorBridge.Program.Usage
import EditorBridge.Script.Reader

namespace EditorBridge.Program

open Usage (Command OptionSpec Paragraph Request Setting Surroundings)

/-! ### The commands -/

def options : List OptionSpec := [
  { name := "config_file", spellings := ["-c", "--config"], kind := .file
    help := "Config file to use." },
  { name := "root", spellings := ["-r", "--root"], kind := .folder
    help := "The workspace root folder, defaults to the current directory." },
  { name := "format", spellings := ["-f", "--format"], kind := .choice (Format.names.map (·.1))
    help := "Output format of the command results, each command has its own default." },
  { name := "verbose", spellings := ["-v", "--verbose"], kind := .switch
    help := "Print progress messages to stderr." },
  { name := "log", spellings := ["--log"], kind := .switch
    help := "Log to stderr with the level given by \x60--log-level\x60." },
  { name := "log_level", spellings := ["--log-level"]
    kind := .choice (Level.names.map (·.1)), help := "Level for \x60--log\x60." },
  { name := "log_calls", spellings := ["--log-calls"], kind := .switch
    help := "Also log the calls of traced functions, needs \x60--log\x60 and level TRACE." },
  { name := "version", spellings := ["--version"], kind := .page
    help := "Show the version and exit." }]

/-- A paragraph with examples. -/
def examples (lines : List String) : Paragraph :=
  .verbatim (["Examples:", "\x60\x60\x60"] ++ lines ++ ["\x60\x60\x60"])

def showCommand : Command where
  name := "show"
  description := [.text "Shows the current configuration.",
    .text "Values that are equal to their defaults are omitted.",
    examples ["lspbridge config show", "lspbridge --format json config show"]]

def filesCommand : Command where
  name := "files"
  description := [.text "Shows the configuration file in use.",
    .text "Prints nothing if the defaults are used."]

def configGroup : Command where
  name := "config"
  description := [.text "Shows information about the configuration."]
  commands := [filesCommand, showCommand]

def capabilitiesCommand : Command where
  name := "capabilities"
  description := [.text "Starts the configured language server and shows what it supports.",
    .text "The server is stopped again after the initialization handshake.",
    examples ["lspbridge capabilities", "lspbridge --format toml capabilities"]]

def replayCommand : Command where
  name := "replay"
  description := [
    .text "Plays the editor actions of a yaml SCRIPT against the language server.",
    .text ("Each step opens, changes, saves or closes a document, or asks the server for hover " ++
      "or completion results. Results are printed one per line."),
    examples ["lspbridge replay session.yaml",
      "lspbridge --log --log-level TRACE replay session.yaml"]]
  argument := some ("SCRIPT", .file)

def mainCommand : Command where
  name := "lspbridge"
  description := [.text ("Keeps editor documents in sync with a language server and relays " ++
    "hover and completion requests to it.")]
  options := options
  commands := [capabilitiesCommand, configGroup, replayCommand]

/-! ### Settings -/

/-- What is set for all commands. -/
structure Settings where
  file : Option FilePath := none
  root : Option FilePath := none
  format : Option Format := none
  verbose : Bool := false
  log : Bool := false
  level : Level := .critical
  calls : Bool := false

/-- The settings of a request. -/
def Settings.of (r : Request) : Settings :=
  let text (name : String) : Option String := match r.settings.lookup name with
    | some (.text s) => some s
    | _ => none
  let on (name : String) : Bool := r.settings.lookup name == some (.switched true)
  { file := (text "config_file").map FilePath.ofString
    root := (text "root").map FilePath.ofString
    format := (text "format").bind fun s => Format.names.lookup s
    verbose := on "verbose"
    log := on "log"
    level := ((text "log_level").bind fun s => Level.names.lookup s).getD .critical
    calls := on "log_calls" }

/-! ### Running -/

/-- How the program may end other than well. -/
inductive Ending where
  /-- An error that is reported, and the exit code. -/
  | error (message : String) (code : Nat)
  | interrupted
  | failure (f : Failure)

/-- The exit code after an interruption. -/
def interruptedCode : Nat := 253

/-- The exit code if the server cannot be started or fails. -/
def serverCode : Nat := 255

/-- The state of the program. -/
structure State where
  console : Console := {}
  /-- What there is below the editor: before a session, how servers are run. -/
  link : Link := {}

abbrev Run := ExceptT Ending (StateM State)

/-- Something that is printed. -/
def onConsole (f : Console → Except Failure Console) : Run Unit := do
  match f (← get).console with
  | .ok c => modify fun s => { s with console := c }
  | .error e => throw (.failure e)

def progress (message : String) : Run Unit := onConsole fun c => .ok (c.progress message)

/-- The folder that a run is about. -/
def rootOf (s : Surroundings) (set : Settings) : FilePath :=
  set.root.elim s.tree.current s.tree.current.join

/-- The configuration in use. -/
def configOf (s : Surroundings) (set : Settings) : Run Value := do
  match Config.load s.tree set.file (rootOf s set) (← get).link.machine with
  | .error (.config _ m) => throw (.error m 1)
  | .error f => throw (.failure f)
  | .ok (config, path) =>
    progress (match path with
      | some p => s!"Loaded configuration from {p}"
      | none => "No configuration file found, using defaults.")
    return config

/-- A session with the server: what it replies, and how it may end.  A script is named in
errors about it. -/
def session (s : Surroundings) (set : Settings) (config : Value) (script : FilePath)
    (steps : Option (List ScriptStep)) : Run Reply := do
  let st ← get
  let root := (rootOf s set).toString
  let bench : Workbench := {
    link := { st.link with client := Config.client config (some root) }
    extension := { config }
    root
    console := some st.console }
  let journal : Journal := if set.log then { threshold := set.level, tracing := set.calls } else {}
  let act : Act Workbench Reply := do
    let r ← Act.outcome (Workbench.complete (.session steps))
    Workbench.flushJournal
    Act.ofExcept r
  let (r, e) := act ⟨journal, bench⟩
  modify fun _ => { console := e.state.console.getD {}, link := e.state.link }
  match r with
  | .ok reply => return reply
  | .error f =>
    if f.kind == "KeyboardInterrupt" then throw .interrupted
    else match f with
      | .script e => throw (.error s!"{script}: {e.message}" 1)
      | f => throw (if f.isClient then .error f.message serverCode else .failure f)

/-- Shows the configuration. -/
def runShow (s : Surroundings) (set : Settings) : Run Unit := do
  let config ← configOf s set
  onConsole (·.print .toml config)

/-- Shows the file of the configuration. -/
def runFiles (s : Surroundings) (set : Settings) : Run Unit := do
  let machine := (← get).link.machine
  let path ← match set.file, Config.find s.tree (rootOf s set) machine with
    | some p, _ => pure (some p)
    | none, .ok p => pure p
    | none, .error f => throw (.failure f)
  let row (p : FilePath) : Value := Value.table [("path", .str p.toString),
    ("type", .str (if p.name = Config.projectFile then "pyproject" else Config.ownFile))]
  match set.format with
  | none | some .text =>
    if let some p := path then
      onConsole fun c => .ok { c with out := c.out ++ p.toString ++ "\n" }
  | some f => onConsole (·.print f (Value.table [("files", .list (path.toList.map row))]))

/-- Shows what the server can do. -/
def runCapabilities (s : Surroundings) (set : Settings) : Run Unit := do
  let config ← configOf s set
  progress s!"Starting {(Config.runProgram config).command}"
  match ← session s set config default none with
  | .value v => onConsole (·.print .indentedJson v)
  | _ => return

/-- Plays a script. -/
def runReplay (s : Surroundings) (set : Settings) (script : FilePath) : Run Unit := do
  match s.tree.readText script >>= Script.parse with
  | .error f =>
    let stated := f.isSystem || f.kind == "ReplayScriptError"
    throw (if stated then .error s!"{script}: {f.message}" 1 else .failure f)
  | .ok steps =>
    progress s!"Loaded {steps.length} step(s) from {script}"
    let config ← configOf s set
    let _ ← session s set config script (some steps)

/-- Does what is asked for. -/
def perform (s : Surroundings) (set : Settings) (r : Request) : Run Unit :=
  match r.path, r.argument with
  | [_, "config", "show"], _ => runShow s set
  | [_, "config", "files"], _ => runFiles s set
  | [_, "capabilities"], _ => runCapabilities s set
  | [_, "replay"], some script => runReplay s set (.ofString script)
  | _, _ => return

/-- What a run of the program comes to. -/
structure Result where
  exit : Nat
  out : String := ""
  err : String := ""
  /-- What the program failed with, if nobody expected it. -/
  failure : Option Failure := none
  link : Link := {}

/-- What is shown in place of what was asked for. -/
def shownInstead : Usage.Instead → Result
  | .page path c o =>
    { exit := 0
      out := if o.name = "version" then s!"lspbridge, version {Link.programVersion}\n"
        else c.page path }
  | .guide path c => { exit := 2, err := c.page path }
  | .problem path c p =>
    { exit := 2
      err := c.usageLine path ++ s!"Try '{path} --help' for help.\n\nError: {p.message}\n" }

/-- What a finished run comes to. -/
def resultOf (r : Except Ending Unit) (s : State) : Result :=
  let done (exit : Nat) (c : Console) (failure : Option Failure) : Result :=
    { exit, out := c.out, err := c.err, failure, link := s.link }
  match r with
  | .ok () => done 0 s.console none
  | .error (.error m code) => done code (s.console.error m) none
  | .error .interrupted => done interruptedCode (s.console.progress "Aborted!") none
  | .error (.failure f) => done 1 s.console (some f)

/-- Runs the program; `link` tells how servers are run. -/
def run (s : Surroundings) (link : Link) (words : List String) : Result :=
  match Usage.read s mainCommand words with
  | .error i => shownInstead i
  | .ok request =>
    let set := Settings.of request
    let console : Console := { verbose := set.verbose, format := set.format, logs := set.log }
    let (r, state) := (perform s set request).run.run { console, link }
    resultOf r state

end EditorBridge.Program
