/-
The state of the whole bridge: the editor's documents and providers, what keeps the
server informed about them, and everything below.
-/
import EditorBridge.Config.Options
import EditorBridge.Sync.Proxy

namespace EditorBridge

/-- Who hears about documents: somebody from outside, or a relay, each by number. -/
inductive Listener where
  | external (n : Nat)
  | relay (n : Nat)
  deriving DecidableEq, Repr, Inhabited

/-- The events of a document. -/
inductive Occasion where
  | opened
  | changed
  | saved
  | closed
  deriving DecidableEq, Repr, Inhabited

/-- A listener from outside: it notes what it hears, and may fail. -/
structure Observer where
  name : String
  failure : Option Failure := none
  deriving Repr, Inhabited

/-- A provider from outside: it notes that it was asked, and answers or fails. -/
structure Informant where
  name : String
  answer : Reply := .nothing
  failure : Option Failure := none
  deriving Repr, Inhabited

/-- What somebody from outside noted. -/
inductive Sighting where
  | heard (observer : String) (o : Occasion) (d : Document)
  | asked (informant uri : String) (p : Position) (cancelled : Bool)

/-- A relay at work: its settings, its tracker, and whether it listens. -/
structure RelayState where
  relay : Relay
  tracker : Nat
  registered : Bool := false
  deriving Inhabited

/-- A query proxy: its schemes and its tracker. -/
structure Proxy where
  schemes : List String := [Uri.fileScheme]
  tracker : Nat
  deriving Inhabited

/-- The extension: what it is configured to, and what an activation has brought about. -/
structure Extension where
  config : Value := Config.defaults
  tracker : Option Nat := none
  relay : Option Nat := none
  proxy : Option Nat := none
  triggers : List String := []
  /-- The registrations to be undone. -/
  registrations : List (Query × Registration) := []
  deriving Inhabited

/-- The outcome of a step of a script. -/
structure Outcome where
  place : Nat
  kind : String
  uri : Option String := none
  result : Value := .null
  deriving Repr, Inhabited

/-- How outcomes are printed. -/
inductive Format where
  | toml
  | json
  | indentedJson
  | text
  deriving DecidableEq, Repr, Inhabited

/-- What the program prints, and what else it has printed so far. -/
structure Console where
  verbose : Bool := false
  format : Option Format := none
  /-- Whether the journal is printed. -/
  logs : Bool := false
  out : String := ""
  err : String := ""
  deriving Inhabited

/-- The state of the whole bridge. -/
structure Workbench where
  link : Link := {}
  /-- Every document there has been. -/
  documents : Array Document := #[]
  /-- The open ones, in the order in which they were opened. -/
  shelf : List (Uri × DocumentId) := []
  hovers : List Registration := []
  completions : List Registration := []
  onOpen : Event Listener := {}
  onChange : Event Listener := {}
  onSave : Event Listener := {}
  onClose : Event Listener := {}
  /-- Who hears that the language client has stopped. -/
  onStop : Event StopListener := {}
  observers : Array Observer := #[]
  informants : Array Informant := #[]
  sightings : List Sighting := []
  trackers : Array Tracker := #[]
  relays : Array RelayState := #[]
  proxies : Array Proxy := #[]
  extension : Extension := {}
  /-- The folder that scripts name files in. -/
  root : String := "/"
  /-- What scripts have brought about. -/
  outcomes : List Outcome := []
  /-- Where outcomes are printed, if they are. -/
  console : Option Console := none
  deriving Inhabited

namespace Workbench

/-- An act on the link. -/
def onLink {α : Type} (a : Act Link α) : Act Workbench α :=
  Act.on (·.link) (fun l w => { w with link := l }) a

/-- An act on a document. -/
def onDocument {α : Type} (d : DocumentId) (a : Act Document α) : Act Workbench α :=
  Act.on (fun w => w.documents.getD d default)
    (fun doc w => { w with documents := w.documents.setIfInBounds d doc }) a

/-- An act on a tracker and the link. -/
def onTracker {α : Type} (t : Nat) (a : Act (Tracker × Link) α) : Act Workbench α :=
  Act.on (fun w => (w.trackers.getD t default, w.link))
    (fun s w => { w with trackers := w.trackers.setIfInBounds t s.1, link := s.2 }) a

/-- A document. -/
def document (d : DocumentId) : Act Workbench Document :=
  return (← Act.state).documents.getD d default

def onExtension (f : Extension → Extension) : Act Workbench Unit :=
  Act.change fun w => { w with extension := f w.extension }

end Workbench

end EditorBridge
