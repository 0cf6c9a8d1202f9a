/-
Files and folders.

A path is followed name by name: two dots lead back to the folder above, and whatever a
path leads through has to be a folder.  A relative path begins at the current folder.
-/
import EditorBridge.Failure
import EditorBridge.FilePath

namespace EditorBridge

/-- A tree of files and folders, all of them named from its root. -/
structure FileTree where
  files : List (List String × List UInt8) := []
  folders : List (List String) := []
  /-- The current folder. -/
  current : FilePath := ⟨"/", []⟩
  deriving Inhabited

namespace FileTree

/-- What a path leads to. -/
inductive Target where
  | file (bytes : List UInt8)
  | folder
  | nothing
  /-- The path leads through a file. -/
  | blocked
  deriving DecidableEq, Repr

/-- Whether there is a folder of that name; what lies in a folder makes it one. -/
def hasFolder (t : FileTree) (names : List String) : Bool :=
  names.isEmpty || t.folders.any names.isPrefixOf ||
    t.files.any fun f => names.isPrefixOf f.1 && names.length < f.1.length

/-- What has that name. -/
def at? (t : FileTree) (names : List String) : Target :=
  match t.files.find? (·.1 == names) with
  | some f => .file f.2
  | none => if t.hasFolder names then .folder else .nothing

/-- Where names lead to from a folder. -/
def follow (t : FileTree) : (here names : List String) → Target
  | here, [] => t.at? here
  | here, n :: ns =>
    match t.at? here with
    | .folder => t.follow (if n = ".." then here.dropLast else here ++ [n]) ns
    | .file _ => .blocked
    | r => r

/-- What a path leads to. -/
def find (t : FileTree) (p : FilePath) : Target := t.follow [] (t.current.join p).names

/-- Whether a path leads to a file. -/
def isFile (t : FileTree) (p : FilePath) : Bool :=
  match t.find p with
  | .file _ => true
  | _ => false

/-- Every end of a line as a line feed. -/
def withLineFeeds : List Char → List Char
  | '\r' :: '\n' :: r => '\n' :: withLineFeeds r
  | '\r' :: r => '\n' :: withLineFeeds r
  | c :: r => c :: withLineFeeds r
  | [] => []

/-- The text of a file. -/
def readText (t : FileTree) (p : FilePath) : Except Failure String :=
  match t.find p with
  | .file bytes => do
    let cs ← (Text.Charset.utf8.decode bytes).mapError .unreadable
    return String.ofList (withLineFeeds cs)
  | .folder => .error (.system (.isFolder p.toString))
  | .nothing => .error (.system (.missing p.toString))
  | .blocked => .error (.system (.notAFolder p.toString))

end FileTree

end EditorBridge
