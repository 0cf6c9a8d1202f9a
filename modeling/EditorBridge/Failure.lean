/-
Everything that can go wrong while the bridge runs.

A failure is its cause.  The class under which a failure is reported and the text
that goes with it are functions of the cause, and so is the one distinction that
steers control flow: whether a failure may be handled where any error may be, or
ends whatever is going on.

Some of it is decided by the machine on which the bridge runs.  What is said of the
bridge is said for every `Machine`.
-/
import EditorBridge.Json.Reader
import EditorBridge.Json.Writer
import EditorBridge.Script.Steps
import EditorBridge.Text.Charset
import EditorBridge.Uri.Basic
import EditorBridge.Wire.Build
import EditorBridge.Yaml.Line

namespace EditorBridge

/-- Why a language client refuses or fails. -/
inductive ClientError where
  | notRunning
  | alreadyRunning
  | notStarted
  | cannotStart (command reason : String)
  | handshake (reason : String)
  | exited (code : Option Int)
  deriving DecidableEq, Repr

/-- An exit code as messages show it. -/
def exitCodeText : Option Int → String
  | none => "None"
  | some n => toString n

def ClientError.message : ClientError → String
  | notRunning => "Language client is not running."
  | alreadyRunning => "Language client is already running."
  | notStarted => "Language client is not started."
  | cannotStart c r => s!"Can't start language server {Text.quote c}: {r}"
  | handshake r => "Initialize failed: " ++ r
  | exited c => s!"Server process exited with code {exitCodeText c}."

/-- Why the operating system refuses something that has to do with a file. -/
inductive SystemError where
  | missing (file : String)
  | denied (file : String)
  | isFolder (file : String)
  | notAFolder (file : String)
  deriving DecidableEq, Repr

def SystemError.message : SystemError → String
  | missing f => "[Errno 2] No such file or directory: " ++ Text.quote f
  | denied f => "[Errno 13] Permission denied: " ++ Text.quote f
  | isFolder f => "[Errno 21] Is a directory: " ++ Text.quote f
  | notAFolder f => "[Errno 20] Not a directory: " ++ Text.quote f

/-- A cause of failure. -/
inductive Failure where
  | uri (e : Uri.Error)
  | schema (e : Schema.Error)
  | wire (e : Wire.Error)
  | unwritable (e : Json.Unwritable)
  | unreadable (e : Text.DecodeError)
  | json (e : Json.Error)
  | script (e : Script.Error)
  /-- A script holds a scalar that is not what it looks like. -/
  | scalar (e : Yaml.Error)
  | client (e : ClientError)
  | system (e : SystemError)
  /-- A configuration that cannot be used: the file, and the whole message. -/
  | config (path : String) (message : String)
  /-- The text of a configuration is not well formed. -/
  | malformedConfig
  /-- A text has too many digits for an integer. -/
  | tooManyDigits (count : Nat)
  /-- An integer has too many digits to be shown. -/
  | unshown
  /-- The stack is not deep enough. -/
  | exhausted
  /-- A value of that type has no items. -/
  | notIterable (type : String)
  /-- There is no such line in a document. -/
  | noSuchLine
  /-- A document that is not open was named by its uri. -/
  | notOpen (uri : String)
  /-- A name that stands for nothing. -/
  | unknownName (name : String)
  /-- Nothing is left to be taken. -/
  | nothingLeft
  /-- A result is given for the second time. -/
  | settled
  /-- A value of that type has no such part. -/
  | noAttribute (type part : String)
  /-- A value of that type cannot name anything. -/
  | unhashable (type : String)
  /-- A value of that type is no number that could be compared with a kind of completion. -/
  | noKind (type : String)
  /-- No member of an enumeration has that value. -/
  | noMember (shown enumeration : String)
  /-- A logger without name and owner. -/
  | namelessLogger
  /-- There is no connection to send on. -/
  | notConnected
  /-- The connection was lost while an answer was awaited. -/
  | connectionLost (reason : Option String)
  /-- The other side answered with an error. -/
  | remote (code message data : Value)
  | timedOut
  | cancelled
  /-- A failure from outside, known by its class and its text. -/
  | raised (class_ : String) (text : Option String)
  deriving Repr

namespace Failure

/-- The error code of a request that was given up. -/
def requestCancelled : Int := -32800

/-- The name of the class of a failure. -/
def kind : Failure → String
  | uri (.notAFile _) => "InvalidUriError"
  | uri _ => "ValueError"
  | schema (.invalid ..) => "TypeValidationError"
  | schema .tooLarge => "OverflowError"
  | schema .unshown => "ValueError"
  | schema _ => "TypeError"
  | wire (.members ..) => "ClassValidationError"
  | wire (.itemsOf ..) => "IterableValidationError"
  | wire (.noItems _) | wire (.noMembers _) => "TypeError"
  | wire .scalar | wire (.range ..) => "ValueError"
  | unwritable .tooManyDigits => "ValueError"
  | unwritable _ => "TypeError"
  | unreadable (.unknownCharset _) => "LookupError"
  | unreadable (.bytes ..) => "UnicodeDecodeError"
  | unreadable (.foreign k _) => k
  | json e => if e.isSyntax then "JSONDecodeError" else "ValueError"
  | script _ => "ReplayScriptError"
  | scalar e => e.kind
  | client _ => "LanguageClientError"
  | system (.missing _) => "FileNotFoundError"
  | system (.denied _) => "PermissionError"
  | system (.isFolder _) => "IsADirectoryError"
  | system (.notAFolder _) => "NotADirectoryError"
  | config .. => "ConfigError"
  | malformedConfig => "TOMLDecodeError"
  | tooManyDigits _ | unshown => "ValueError"
  | exhausted => "RecursionError"
  | notIterable _ => "TypeError"
  | noSuchLine | nothingLeft => "IndexError"
  | notOpen _ | unknownName _ => "KeyError"
  | settled => "InvalidStateError"
  | noAttribute .. => "AttributeError"
  | unhashable _ | noKind _ => "TypeError"
  | noMember .. => "ValueError"
  | namelessLogger => "RuntimeError"
  | notConnected | connectionLost _ => "JsonRPCException"
  | remote .. => "JsonRPCErrorException"
  | timedOut => "TimeoutError"
  | cancelled => "CancelledError"
  | raised k _ => k

/-- The text of a failure. -/
def message : Failure → String
  | uri e => e.message
  | schema e => e.message
  | wire e => e.message
  | unwritable e => e.message
  | unreadable e => e.message
  | json e => e.message
  | script e => e.message
  | scalar e => e.message
  | client e => e.message
  | system e => e.message
  | config _ m => m
  | malformedConfig => ""
  | tooManyDigits n => Digits.excess n
  | unshown => Digits.unwritten
  | exhausted => "maximum recursion depth exceeded"
  | notIterable t => s!"argument of type '{t}' is not iterable"
  | noSuchLine => "list index out of range"
  | notOpen u => Text.quote s!"Document {u} is not open."
  | unknownName n => Text.quote n
  | nothingLeft => "pop from empty list"
  | settled => "invalid state"
  | noAttribute t a => s!"'{t}' object has no attribute '{a}'"
  | unhashable t => s!"unhashable type: '{t}'"
  | noKind t => s!"'<=' not supported between instances of 'CompletionItemKind' and '{t}'"
  | noMember s e => s!"{s} is not a valid {e}"
  | namelessLogger => "LoggingDescriptor needs a name when it is not a class attribute."
  | notConnected => "Can't send message, the connection is not established or already closed."
  | connectionLost none => "Connection lost."
  | connectionLost (some r) => "Connection lost: " ++ r
  | remote _ m _ => m.plain
  | timedOut => ""
  | cancelled => ""
  | raised "KeyError" (some t) => Text.quote t
  | raised _ t => t.getD ""

/-- Class and text, the text only if there is one. -/
def summary (f : Failure) : String :=
  if f.message == "" then f.kind else f.kind ++ ": " ++ f.message

/-- Class and text, whatever the text. -/
def report (f : Failure) : String := f.kind ++ ": " ++ f.message

/-- Whether a failure is a request to end the program. -/
def isExit (f : Failure) : Bool := f.kind == "SystemExit" || f.kind == "KeyboardInterrupt"

/-- Whether a failure is the end of something that was given up. -/
def isCancelled (f : Failure) : Bool := f.kind == "CancelledError"

/-- Whether a failure may be handled wherever any error may be. -/
def isError (f : Failure) : Bool :=
  !f.isExit && !f.isCancelled && f.kind != "GeneratorExit" && f.kind != "BaseException"

/-- Whether a failure is one of the connection. -/
def isConnection (f : Failure) : Bool :=
  f.kind == "JsonRPCException" || f.kind == "JsonRPCErrorException"

/-- Whether a failure is one of the client itself. -/
def isClient (f : Failure) : Bool := f.kind == "LanguageClientError"

/-- Whether a failure comes from the operating system. -/
def isSystem (f : Failure) : Bool :=
  ["OSError", "FileNotFoundError", "PermissionError", "TimeoutError", "ConnectionError",
    "IsADirectoryError", "NotADirectoryError", "BrokenPipeError"].contains f.kind

/-- Whether a failure is about a value that is not as it should be. -/
def isAboutValue (f : Failure) : Bool :=
  ["TypeError", "ValueError", "UnicodeDecodeError", "TypeValidationError",
    "TOMLDecodeError"].contains f.kind

end Failure

/-- What is up to the machine on which the bridge runs: the character sets that it has beside
the four known ones, and for which texts its stack is deep enough. -/
structure Machine where
  /-- How bytes are read in a character set that is none of the four. -/
  decode : String → List UInt8 → Except Text.DecodeError (List Char) :=
    fun name _ => .error (.unknownCharset name)
  /-- Whether the stack is deep enough to read the text of a message and to do what it says. -/
  handles : String → Bool := fun _ => true
  /-- Whether the stack is deep enough to look for a table in the text of a configuration. -/
  searches : String → Bool := fun _ => true
  /-- Whether the stack is deep enough to make a configuration from a text. -/
  loads : String → Bool := fun _ => true

instance : Inhabited Machine := ⟨{}⟩

end EditorBridge
