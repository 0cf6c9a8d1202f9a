/-
File paths as texts.

A path is a root, which is empty for a relative path, and the names below it.
Repeated slashes, a slash at the end and names that are a single dot do not count;
two dots do, because what they mean depends on links.  A path that begins with
exactly two slashes keeps both.
-/
import EditorBridge.Text.Utf8

namespace EditorBridge

/-- A file path. -/
structure FilePath where
  root : String
  names : List String
  deriving DecidableEq, Repr, Inhabited

namespace FilePath

/-- Cuts a text at every slash. -/
def cutAtSlashes (s : String) : List String :=
  (s.toList.splitOn '/').map String.ofList

/-- Reads a path. -/
def ofString (s : String) : FilePath :=
  let slashes := (s.toList.takeWhile (· == '/')).length
  { root := if slashes = 0 then "" else if slashes = 2 then "//" else "/",
    names := (cutAtSlashes s).filter fun n => n != "" && n != "." }

/-- The text of a path; a single dot for the empty one. -/
def toString (p : FilePath) : String :=
  let s := p.root ++ String.intercalate "/" p.names
  if s == "" then "." else s

instance : ToString FilePath := ⟨toString⟩

/-- The last name of a path; empty if it has none. -/
def name (p : FilePath) : String := p.names.getLastD ""

/-- A path read from another one: an absolute path stays as it is. -/
def join (base p : FilePath) : FilePath :=
  if p.root == "" then { base with names := base.names ++ p.names } else p

/-- A path below a folder. -/
def child (folder : FilePath) (name : String) : FilePath := folder.join (ofString name)

/-- A path and the folders it lies in, from the inside to the outside. -/
def andParents (p : FilePath) : List FilePath :=
  (List.range (p.names.length + 1)).reverse.map fun n => { p with names := p.names.take n }

end FilePath

end EditorBridge
