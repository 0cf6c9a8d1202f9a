/-
Providers of language features and their registrations.

A registration says for which documents a provider is asked, and which characters make
the editor ask for proposals.  Registrations are compared by what they say.

The documents are selected by a list of entries, of which one has to match: the
identifier of a language, a star for all documents, or a filter by scheme, language and
path.
-/
import EditorBridge.Document.Basic
import EditorBridge.Text.Glob

namespace EditorBridge

/-- A filter; parts that are not set match everything. -/
structure DocumentFilter where
  scheme : Option String := none
  language : Option String := none
  /-- A glob pattern for the path of the uri. -/
  pattern : Option String := none
  deriving DecidableEq, Repr, Inhabited

/-- One entry of a selector. -/
inductive SelectorEntry where
  | language (id : String)
  | filter (f : DocumentFilter)
  deriving DecidableEq, Repr, Inhabited

/-- The documents a provider serves. -/
abbrev Selector := List SelectorEntry

/-- Whether a filter lets a document pass. -/
def DocumentFilter.accepts (f : DocumentFilter) (d : Document) : Bool :=
  f.scheme.all (d.uri.scheme == ·) && f.language.all (d.languageId == ·) &&
    f.pattern.all fun p => Text.Glob.accepts p d.uri.path

/-- Whether an entry matches a document. -/
def SelectorEntry.accepts (d : Document) : SelectorEntry → Bool
  | .language id => id == "*" || id == d.languageId
  | .filter f => f.accepts d

/-- Whether any entry matches a document. -/
def Selector.accepts (s : Selector) (d : Document) : Bool := s.any (·.accepts d)

/-! ### Registrations -/

/-- Who answers: somebody from outside, or a query proxy, each by number. -/
inductive Provider where
  | external (n : Nat)
  | proxy (n : Nat)
  deriving DecidableEq, Repr, Inhabited

/-- A registration. -/
structure Registration where
  selector : Selector
  provider : Provider
  triggers : List String := []
  deriving DecidableEq, Repr, Inhabited

namespace Registration

/-- The registrations that serve a document. -/
def serving (rs : List Registration) (d : Document) : List Registration :=
  rs.filter fun r => r.selector.accepts d

/-- Adds the texts that are not there yet. -/
def addNew (old : List String) (new : List String) : List String :=
  new.foldl (fun seen c => if seen.contains c then seen else seen ++ [c]) old

/-- The characters that make the editor ask for proposals in a document, each once. -/
def triggersOf (rs : List Registration) (d : Document) : List String :=
  (serving rs d).foldl (fun seen r => addNew seen r.triggers) []

/-- Whether a registration is asked when that character was typed; without one it always is. -/
def asked (trigger : Option String) (r : Registration) : Bool := trigger.all r.triggers.contains

end Registration

end EditorBridge
