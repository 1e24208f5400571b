import TrieFeed.App.Service
/-!
# The command line

Reads the arguments, the environment, the clock and the files, and runs the application on them. A
service goes on until it is interrupted.
-/
namespace TrieFeed.App

/-- How deep directories are read. -/
def maxDirectoryDepth : Nat := 24

/-- Adds what is below a directory to a tree. What cannot be read is left out. -/
partial def addDirectory (depth : Nat) (entry : IO.FS.DirEntry) (place : Place)
    (tree : FileTree) : IO FileTree := do
  if depth = 0 then return tree
  let entries ← entry.path.readDir
  let mut tree := tree.write place .directory
  for e in entries do
    let place := place ++ [e.fileName]
    try
      match (← e.path.metadata).type with
      | .dir => tree ← addDirectory (depth - 1) e place tree
      | .file => tree := tree.put place (.file (← IO.FS.readBinFile e.path).toList)
      | _ => pure ()
    catch _ => pure ()
  return tree

/-- The files below the working directory, and below the directory at a path. -/
def readFiles (path : String) : IO FileTree := do
  let working ← IO.currentDir
  let place := (Path.read working.toString).parts.map Path.Part.text
  let start := { FileTree.empty with working := place }
  let tree ← addDirectory maxDirectoryDepth ⟨working, "."⟩ place start
  let path := Path.read path
  if path.absolute && !(place.isPrefixOf (path.parts.map Path.Part.text)) then
    try addDirectory maxDirectoryDepth ⟨"/", path.text⟩ (path.parts.map Path.Part.text) tree
    catch _ => return tree
  else return tree

/-- The variables of the process. -/
def readVariables : IO Variables := do
  let bytes ← IO.FS.readBinFile "/proc/self/environ"
  let text := (Utf8.decode? bytes.toList).getD ""
  return (Text.splitOn '\x00' text.toList).filterMap fun cs =>
    (Text.cutAt? '=' cs).map fun (name, value) => (String.ofList name, String.ofList value)

/-- The seconds since 1970: those at the start of the machine, and those that it has been up. -/
def readClock : IO Int := do
  let lines ← IO.FS.lines "/proc/stat"
  let started := (lines.toList.findSome? fun line =>
    (Text.after? "btime ".toList line.toList).bind Numeral.natural?).getD 0
  let up ← IO.FS.readFile "/proc/uptime"
  return (started : Int) + Numeral.ofDigits (up.toList.takeWhile Numeral.isDigit)

/-- The files whose contents differ between two trees. -/
def changedFiles (before after : FileTree) : List Path :=
  (after.entries.filter fun (place, entry) => before.entry? place ≠ some entry).map fun e =>
    FileTree.Place.toPath e.1

/-- The directory outside the working directory that a call may need. -/
def directoryOf (args : List String) (files : FileTree) : String :=
  match Arguments.read args with
  | .ok ⟨_, _, .check directory⟩ => directory
  | .ok call => ((Settings.load files call.settings).toOption.map (·.pluginsDirectory)).getD ""
  | .error _ => ""

/-- Steps a service once every second. -/
partial def serve (directory : String) (files : FileTree) (s : Service) : IO Unit := do
  IO.sleep 1000
  let now ← readClock
  let later ← readFiles directory
  serve directory later (s.step now later (changedFiles files later))

end TrieFeed.App

open TrieFeed App in
def main (args : List String) : IO UInt32 := do
  let files ← readFiles ""
  let directory := directoryOf args files
  let files ← readFiles directory
  match Call.run args (← readVariables) files (← readClock) with
  | .ended output error code =>
    IO.print output
    IO.eprint error
    return code.toUInt32
  | .serving service =>
    serve directory files service
    return 0
