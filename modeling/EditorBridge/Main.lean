/-
The program on a real command line.

The files that the words and the variables may name, and the configuration files in the
folders around them, are read before the program runs.  Servers are not run from here: a
command that needs one reports that it cannot be started.
-/
import EditorBridge.Program.Commands

namespace EditorBridge.Main

/-- Reads what a path leads to, if there is anything. -/
def addPath (tree : FileTree) (p : FilePath) : IO FileTree := do
  let full := tree.current.join p
  try
    let bytes ← IO.FS.readBinFile full.toString
    return { tree with files := (full.names, bytes.toList) :: tree.files }
  catch _ =>
    if ← ((← IO.currentDir) / full.toString).isDir then
      return { tree with folders := full.names :: tree.folders }
    else return tree

/-- Reads what a path leads to, and the configuration files in the folders that it lies in. -/
def addSurroundings (tree : FileTree) (path : String) : IO FileTree := do
  let mut tree := tree
  for folder in (tree.current.join (.ofString path)).andParents do
    tree ← addPath tree folder
    for name in [Config.ownFile, Config.projectFile] do
      tree ← addPath tree (folder.child name)
  return tree

/-- The paths that a word may name: as it is, behind the letter of an option, or behind a sign of
equality. -/
def pathsIn (word : String) : List String :=
  let cs := word.toList
  [word, String.ofList (cs.drop 2), String.ofList ((cs.dropWhile (· != '=')).drop 1)].filter
    (· != "")

/-- The variables that set options. -/
def readVariables : IO (List (String × String)) :=
  Program.options.filterMapM fun o => do
    let name := Usage.variableOf Program.mainCommand.name o
    return (← IO.getEnv name).map (name, ·)

end EditorBridge.Main

open EditorBridge EditorBridge.Main in
/-- Runs the program. -/
def main (words : List String) : IO UInt32 := do
  let values ← readVariables
  let start : FileTree := { current := .ofString (← IO.currentDir).toString }
  let tree ← ("" :: (words ++ values.map (·.2)).flatMap pathsIn).foldlM addSurroundings start
  let result := Program.run { tree, values }
    { spawning := .fails fun command => .system (.missing command) } words
  (← IO.getStdout).putStr result.out
  (← IO.getStderr).putStr result.err
  if let some f := result.failure then (← IO.getStderr).putStrLn f.report
  return result.exit.toUInt32
