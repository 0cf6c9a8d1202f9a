/-
What can be written on a command line.

A command has options, which may be given in any order, and at most one argument.  A group
has commands of its own, and its options end where the name of one of them comes.  An
option that is not given may be set by a variable of the environment.

A name that is unknown is answered with those that resemble it.  Two texts are as similar
as the parts they have in common are long: the longest common part, and those to the left
and to the right of it.
-/
import EditorBridge.FileTree

namespace EditorBridge

namespace Text

/-! ### Which texts resemble a text -/

/-- The length of what two texts have in common at their fronts. -/
def commonFront : List Char → List Char → Nat
  | a :: as, b :: bs => if a = b then commonFront as bs + 1 else 0
  | _, _ => 0

/-- The longest common part of two texts: where it begins in each of them, and its length.  Of
several, the one that comes first in the first text, and then in the second one, is taken. -/
def longestPart (a b : List Char) : Nat × Nat × Nat :=
  (List.range a.length).foldl (fun best i =>
    (List.range b.length).foldl (fun best j =>
      let n := commonFront (a.drop i) (b.drop j)
      if best.2.2 < n then (i, j, n) else best) best) (0, 0, 0)

/-- How many characters two texts have in common. -/
def common : Nat → List Char → List Char → Nat
  | 0, _, _ => 0
  | fuel + 1, a, b =>
    let (i, j, n) := longestPart a b
    if n = 0 then 0
    else n + common fuel (a.take i) (b.take j) + common fuel (a.drop (i + n)) (b.drop (j + n))

/-- How many characters of two texts together belong to what they have in common. -/
def likeness (a b : String) : Nat :=
  2 * common (a.length + 1) a.toList b.toList

/-- Whether at least three of five characters of two texts belong to what they have in common. -/
def resembles (a b : String) : Bool := 3 * (a.length + b.length) ≤ 5 * likeness a b

/-- Whether a text is more like `text` than another one, or as much like it and later in the
alphabet. -/
def moreAlike (text a b : String) : Bool :=
  let x := likeness a text * (b.length + text.length)
  let y := likeness b text * (a.length + text.length)
  y < x || (x == y && b < a)

/-- The three texts that resemble a text most, in the order of the alphabet. -/
def similar (text : String) (candidates : List String) : List String :=
  let best := ((candidates.filter fun c => resembles c text).mergeSort (moreAlike text)).take 3
  best.mergeSort fun a b => a ≤ b

end Text

namespace Usage

/-! ### Commands -/

/-- What follows an option, or stands as an argument. -/
inductive Kind where
  /-- Nothing: the option is given or not. -/
  | switch
  /-- Nothing: a page is shown in place of anything else. -/
  | page
  | choice (names : List String)
  /-- The path of a file that exists. -/
  | file
  /-- The path of a folder that exists. -/
  | folder
  deriving DecidableEq, Repr

/-- Whether a value follows. -/
def Kind.takesValue : Kind → Bool
  | switch | page => false
  | _ => true

/-- How a value is called on pages. -/
def Kind.placeholder : Kind → String
  | switch | page => ""
  | choice names => " [" ++ String.intercalate "|" names ++ "]"
  | file => " FILE"
  | folder => " DIRECTORY"

/-- An option. -/
structure OptionSpec where
  name : String
  spellings : List String
  kind : Kind
  help : String
  deriving DecidableEq, Repr

/-- A paragraph of a page. -/
inductive Paragraph where
  /-- Words that are set in lines. -/
  | text (s : String)
  /-- Lines that stay as they are. -/
  | verbatim (lines : List String)

/-- A command, or a group of commands. -/
structure Command where
  name : String
  description : List Paragraph
  options : List OptionSpec := []
  argument : Option (String × Kind) := none
  commands : List Command := []

/-- The option that every command has. -/
def helpOption : OptionSpec where
  name := "help"
  spellings := ["--help"]
  kind := .page
  help := "Show this message and exit."

namespace Command

/-- The options of a command. -/
def allOptions (c : Command) : List OptionSpec := c.options ++ [helpOption]

/-- The option that is spelled like that. -/
def option? (c : Command) (spelling : String) : Option OptionSpec :=
  c.allOptions.find? (·.spellings.contains spelling)

/-- The long spellings of the options. -/
def longSpellings (c : Command) : List String :=
  (c.allOptions.flatMap (·.spellings)).filter fun s => "--".toList.isPrefixOf s.toList

end Command

/-! ### Pages -/

/-- The columns of a page. -/
def pageWidth : Nat := 78

/-- Sets words in lines of a width. -/
def setLines (width : Nat) : (line : String) → List String → List String
  | line, [] => if line = "" then [] else [line]
  | line, w :: ws =>
    if line = "" then setLines width w ws
    else if line.length + 1 + w.length ≤ width then setLines width (line ++ " " ++ w) ws
    else line :: setLines width w ws

/-- The lines of a paragraph. -/
def Paragraph.lines : Paragraph → List String
  | text s => setLines (pageWidth - 2) "" (s.splitOn " ")
  | verbatim ls => ls

/-- Two columns, of which the first one is as wide as its widest entry. -/
def columns (rows : List (String × String)) : String :=
  let width := rows.foldl (fun n r => max n r.1.length) 0
  String.join (rows.map fun (a, b) =>
    "  " ++ a ++ String.ofList (List.replicate (width - a.length + 2) ' ') ++ b ++ "\n")

/-- The first paragraph of a description. -/
def Command.summary (c : Command) : String :=
  match c.description with
  | .text s :: _ => s
  | _ => ""

/-- What follows the name of a command. -/
def Command.pattern (c : Command) : String :=
  "[OPTIONS]" ++ (if c.commands.isEmpty then "" else " COMMAND [ARGS]...") ++
    c.argument.elim "" fun a => " " ++ a.1

/-- The line about the use of a command that is called by a path. -/
def Command.usageLine (path : String) (c : Command) : String :=
  s!"Usage: {path} {c.pattern}\n"

/-- The page of a command. -/
def Command.page (path : String) (c : Command) : String :=
  c.usageLine path ++
    String.join (c.description.map fun p =>
      "\n" ++ String.join (p.lines.map fun l => "  " ++ l ++ "\n")) ++
    "\nOptions:\n" ++ columns (c.allOptions.map fun o =>
      (String.intercalate ", " o.spellings ++ o.kind.placeholder, o.help)) ++
    (if c.commands.isEmpty then ""
     else "\nCommands:\n" ++ columns (c.commands.map fun d => (d.name, d.summary)))

/-! ### Problems -/

/-- Why a value cannot be used. -/
inductive Unfit where
  | noChoice (value : String) (names : List String)
  | noFile (value : String)
  | noFolder (value : String)
  | isFile (value : String)
  | isFolder (value : String)
  | noTruth (value : String)
  deriving DecidableEq, Repr

/-- The words that set a switch, and those that do not. -/
def truthWords : List (String × Bool) := [
  ("1", true), ("0", false), ("yes", true), ("no", false), ("true", true), ("false", false),
  ("on", true), ("off", false), ("t", true), ("f", false), ("y", true), ("n", false), ("", false)]

/-- What the message about a value says. -/
def Unfit.text : Unfit → String
  | noChoice v names =>
    Text.quote v ++ " is not one of " ++ String.intercalate ", " (names.map Text.quote) ++ "."
  | noFile v => s!"File {Text.quote v} does not exist."
  | noFolder v => s!"Directory {Text.quote v} does not exist."
  | isFile v => s!"Directory {Text.quote v} is a file."
  | isFolder v => s!"File {Text.quote v} is a directory."
  | noTruth v => Text.quote v ++ " is not a valid boolean. Recognized values: " ++
      String.intercalate ", " (((truthWords.map (·.1)).toArray.qsort (· < ·)).toList)

/-- What is wrong with a command line. -/
inductive Problem where
  | noSuchOption (spelling : String) (similar : List String)
  | noValue (spelling : String)
  | needlessValue (spelling : String)
  | unfit (what : String) (why : Unfit)
  | missing (argument : String)
  | unexpected (arguments : List String)
  | noCommand
  | noSuchCommand (name : String) (similar : List String)
  deriving DecidableEq, Repr

/-- What may have been meant. -/
def guess (similar : List String) : String :=
  let names := String.intercalate ", " (similar.map Text.quote)
  match similar with
  | [] => ""
  | [_] => s!" Did you mean {names}?"
  | _ => s!" (Did you mean one of: {names}?)"

/-- The message about a problem. -/
def Problem.message : Problem → String
  | noSuchOption s similar => s!"No such option {Text.quote s}." ++ guess similar
  | noValue s => s!"Option {Text.quote s} requires an argument."
  | needlessValue s => s!"Option {Text.quote s} does not take a value."
  | unfit what why => s!"Invalid value for {what}: {why.text}"
  | missing a => s!"Missing argument {Text.quote a}."
  | unexpected [a] => s!"Got unexpected extra argument ({a})"
  | unexpected as => "Got unexpected extra arguments (" ++ String.intercalate " " as ++ ")"
  | noCommand => "Missing command."
  | noSuchCommand n similar => s!"No such command {Text.quote n}." ++ guess similar

/-! ### Reading -/

/-- An option as it was given. -/
structure Given where
  option : OptionSpec
  value : Option String := none

/-- Takes what belongs to an option: a value that is attached to it, or else the next word. -/
def takeValue (o : OptionSpec) (spelling : String) (attached : Option String)
    (words : List String) : Except Problem (Given × List String) :=
  match o.kind.takesValue, attached, words with
  | true, some v, ws => .ok (⟨o, some v⟩, ws)
  | true, none, v :: ws => .ok (⟨o, some v⟩, ws)
  | true, none, [] => .error (.noValue spelling)
  | false, none, ws => .ok (⟨o, none⟩, ws)
  | false, some _, _ => .error (.needlessValue spelling)

/-- Reads short options that are written together; what follows one that takes a value is its
value. -/
def readShort (c : Command) : List Char → List String → Except Problem (List Given × List String)
  | [], words => .ok ([], words)
  | x :: xs, words => do
    let spelling := String.ofList ['-', x]
    match c.option? spelling with
    | none => .error (.noSuchOption spelling [])
    | some o =>
      if o.kind.takesValue then
        let attached := if xs.isEmpty then none else some (String.ofList xs)
        let (g, words) ← takeValue o spelling attached words
        return ([g], words)
      else
        let (gs, words) ← readShort c xs words
        return (⟨o, none⟩ :: gs, words)

/-- Reads a word that begins like an option. -/
def readOption (c : Command) (word : String) (words : List String) :
    Except Problem (List Given × List String) := do
  let cs := word.toList
  let spelling := String.ofList (cs.takeWhile (· != '='))
  let attached := if cs.contains '=' then
      some (String.ofList ((cs.dropWhile (· != '=')).drop 1)) else none
  if c.longSpellings.contains spelling then
    match c.option? spelling with
    | some o =>
      let (g, words) ← takeValue o spelling attached words
      return ([g], words)
    | none => .error (.noSuchOption spelling [])
  else if "--".toList.isPrefixOf cs then
    .error (.noSuchOption spelling (Text.similar spelling c.longSpellings))
  else readShort c (cs.drop 1) words

/-- Whether a word begins like an option. -/
def isOption (word : String) : Bool := word.toList.head? == some '-' && 1 < word.length

/-- Reads the words behind a command: the options, and the words that are left. -/
def readWords (c : Command) : Nat → List String → Except Problem (List Given × List String)
  | 0, words => .ok ([], words)
  | _, [] => .ok ([], [])
  | fuel + 1, w :: words =>
    if w == "--" then .ok ([], words)
    else if isOption w then do
      let (gs, words) ← readOption c w words
      let (more, words) ← readWords c fuel words
      return (gs ++ more, words)
    else if c.commands.isEmpty then do
      let (gs, words) ← readWords c fuel words
      return (gs, w :: words)
    else .ok ([], w :: words)

/-! ### Values -/

/-- Where a command line is used: the files and the variables there are. -/
structure Surroundings where
  tree : FileTree := {}
  values : List (String × String) := []

/-- How an option is set. -/
inductive Setting where
  | switched (on : Bool)
  | text (s : String)
  | unset
  deriving DecidableEq, Repr

/-- How an option is set by a value. -/
def Kind.setting (tree : FileTree) (v : String) : Kind → Except Unfit Setting
  | switch | page =>
    match truthWords.lookup (String.ofList (Text.trim v.toList)).toLower with
    | some b => .ok (.switched b)
    | none => .error (.noTruth v)
  | choice names => if names.contains v then .ok (.text v) else .error (.noChoice v names)
  | file =>
    match if v = "" then .nothing else tree.find (.ofString v) with
    | .file _ => .ok (.text v)
    | .folder => .error (.isFolder v)
    | _ => .error (.noFile v)
  | folder =>
    match if v = "" then .nothing else tree.find (.ofString v) with
    | .folder => .ok (.text v)
    | .file _ => .error (.isFile v)
    | _ => .error (.noFolder v)

/-- The variable that sets an option of a command; the command is given by the names of the
groups that it is in and its own, with low lines between them. -/
def variableOf (command : String) (o : OptionSpec) : String :=
  (command ++ "_" ++ o.name).toUpper

/-- An option in messages. -/
def OptionSpec.hint (o : OptionSpec) : String :=
  String.intercalate " / " (o.spellings.map fun s => s!"'{s}'")

/-- How an option is set: by the last value that was given, or else by its variable. -/
def settingOf (s : Surroundings) (command : String) (given : List Given) (o : OptionSpec) :
    Except Problem Setting :=
  let of (v : String) : Except Problem Setting :=
    (o.kind.setting s.tree v).mapError (.unfit o.hint)
  match (given.filter (·.option.name == o.name)).getLast? with
  | some ⟨_, some v⟩ => of v
  | some ⟨_, none⟩ => .ok (.switched true)
  | none =>
    match s.values.lookup (variableOf command o) with
    | none | some "" => .ok .unset
    | some v => of v

/-- The options of a command in the order in which they are looked at: pages first, and what was
given before what was not. -/
def inOrder (c : Command) (given : List Given) : List OptionSpec :=
  let names := given.map (·.option.name)
  let rank (o : OptionSpec) : Nat := names.findIdx (· == o.name)
  let sorted := c.allOptions.mergeSort fun a b => rank a ≤ rank b
  sorted.filter (·.kind == .page) ++ sorted.filter (·.kind != .page)

/-- How the options of a command are set.  A page that is asked for comes in place of the rest. -/
def settings (s : Surroundings) (command : String) (given : List Given) :
    List OptionSpec → Except Problem (List (String × Setting) ⊕ OptionSpec)
  | [] => .ok (.inl [])
  | o :: os => do
    let v ← settingOf s command given o
    if o.kind == .page && v == .switched true then return .inr o
    match ← settings s command given os with
    | .inl more => return .inl ((o.name, v) :: more)
    | .inr page => return .inr page

/-! ### Requests -/

/-- What a command line asks for. -/
structure Request where
  /-- The names of the groups and of the command. -/
  path : List String
  settings : List (String × Setting)
  argument : Option String := none

/-- What is shown in place of what was asked for. -/
inductive Instead where
  /-- A page that was asked for: of a command, or another one by its name. -/
  | page (path : String) (c : Command) (o : OptionSpec)
  /-- The page of a group that was called without anything. -/
  | guide (path : String) (c : Command)
  | problem (path : String) (c : Command) (p : Problem)

/-- Reads the words behind the name of a command or group; `names` are its name and those around
it, as they stand in variables. -/
def resolve (s : Surroundings) (names : String) :
    Nat → (path : List String) → Command → List String → Except Instead Request
  | 0, path, c, _ => .error (.problem (String.intercalate " " path) c .noCommand)
  | fuel + 1, path, c, words => do
    let called := String.intercalate " " path
    if words.isEmpty && !c.commands.isEmpty then throw (.guide called c)
    let problem := Instead.problem called c
    let read (words : List String) : Except Instead (List (String × Setting) × List String) := do
      let (given, rest) ← (readWords c (words.length + 1) words).mapError problem
      match ← (settings s names given (inOrder c given)).mapError problem with
      | .inl set => return (set, rest)
      | .inr page => .error (.page called c page)
    let (set, rest) ← read words
    if c.commands.isEmpty then
      match c.argument, rest with
      | none, [] => return { path, settings := set }
      | none, extra => .error (problem (.unexpected extra))
      | some (name, _), [] => .error (problem (.missing name))
      | some (name, kind), v :: extra =>
        let _ ← (kind.setting s.tree v).mapError fun e => problem (.unfit s!"'{name}'" e)
        if extra.isEmpty then return { path, settings := set, argument := some v }
        else .error (problem (.unexpected extra))
    else
      match rest with
      | [] => .error (problem .noCommand)
      | name :: words =>
        match c.commands.find? (·.name == name) with
        | some d =>
          let r ← resolve s (names ++ "_" ++ name) fuel (path ++ [name]) d words
          return { r with settings := set ++ r.settings }
        | none =>
          -- behind two hyphens a word may begin like an option
          if isOption name then let _ ← read rest
          .error (problem (.noSuchCommand name (Text.similar name (c.commands.map (·.name)))))

/-- Reads a command line. -/
def read (s : Surroundings) (c : Command) (words : List String) : Except Instead Request :=
  resolve s c.name (words.length + 1) [c.name] c words

end Usage

end EditorBridge
