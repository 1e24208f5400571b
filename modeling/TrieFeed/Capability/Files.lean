import TrieFeed.Capability.Arguments
import TrieFeed.Files.Rows
import TrieFeed.Files.Tree
import TrieFeed.Json.Reader
import TrieFeed.Value.Json
/-!
# Sandboxed files

Scripts read files below one directory and nowhere else. A path is normalized before anything is
looked up, so that paths to nothing are judged too, and a path that exists is judged again by where
it really leads.
-/
namespace TrieFeed

/-- A reader of the files below a directory without links in its path. -/
structure SandboxedFile where
  root : Path
deriving DecidableEq, Inhabited

namespace SandboxedFile

/-- The reader below a directory that exists. -/
def ofDirectory (tree : FileTree) (directory : Path) : Except PluginError SandboxedFile :=
  match tree.canonical directory with
  | .ok root => .ok ⟨root⟩
  | .error fault => .error (.file fault.message)

def escape (file : SandboxedFile) (raw : String) : PluginError :=
  .securityViolation s!"path `{raw}` resolves outside the provider directory `{file.root.text}`"

/-- The path to open for a path as written, by what `canonical?` says of where paths really lead. -/
def resolve (file : SandboxedFile) (canonical? : Path → Option Path) (raw : String) :
    Except PluginError Path :=
  let normalized := (file.root.join (.read raw)).normalize
  if normalized.startsWith file.root then
    match canonical? normalized with
    | some real => if real.startsWith file.root then .ok real else .error (file.escape raw)
    | none => .ok normalized
  else .error (file.escape raw)

def resolveIn (file : SandboxedFile) (tree : FileTree) (raw : String) : Except PluginError Path :=
  file.resolve (fun p => (tree.canonical p).toOption) raw

def failure (reason : String) : PluginError := .capability "sandboxedFile" reason

/-- Reads what a path resolves to. -/
def readWith {α : Type} (file : SandboxedFile) (tree : FileTree)
    (read : Path → Except FileFault α) (raw : String) : Except PluginError α := do
  let path ← file.resolveIn tree raw
  (read path).mapError fun fault => failure s!"failed to read `{raw}`: {fault.message}"

def readText (file : SandboxedFile) (tree : FileTree) (raw : String) :
    Except PluginError String := file.readWith tree tree.readText raw

def readBytes (file : SandboxedFile) (tree : FileTree) (raw : String) :
    Except PluginError Bytes := file.readWith tree tree.readBytes raw

def readJson (file : SandboxedFile) (tree : FileTree) (raw : String) :
    Except PluginError Value := do
  match Json.read? (← file.readText tree raw) with
  | some json => return .ofJson json
  | none => throw (failure s!"invalid JSON in `{raw}`: not a document")

def readLines (file : SandboxedFile) (tree : FileTree) (raw : String) :
    Except PluginError (List String) := do
  return (Text.linesOf (← file.readText tree raw).toList).map .ofList

def readRows (file : SandboxedFile) (tree : FileTree) (format : RowFormat) (raw : String) :
    Except PluginError (List Record) := do
  return format.records (← file.readText tree raw)

/-- Whether there is something at a path inside the directory. -/
def holds (file : SandboxedFile) (tree : FileTree) (raw : String) : Bool :=
  match file.resolveIn tree raw with
  | .ok path => tree.holds path
  | .error _ => false

/-- The row format given as a map or by position; an empty delimiter is the usual one. -/
def rowFormat (args : Arguments) : RowFormat :=
  let usual := RowFormat.default
  let format : RowFormat := match args.get? 1 with
    | some (.map fields) =>
      ⟨((Fields.get? "delimiter" fields).bind Value.text?).getD usual.delimiter,
        ((Fields.get? "hasHeader" fields).bind Value.toBool?).getD usual.header⟩
    | some (.text delimiter) => ⟨delimiter, ((args.get? 2).bind Value.toBool?).getD usual.header⟩
    | _ => usual
  if format.delimiter.isEmpty then { format with delimiter := usual.delimiter } else format

def call (file : SandboxedFile) (tree : FileTree) (method : String) (args : Arguments) :
    Except PluginError Value := do
  let raw ← args.text 0
  match method with
  | "readText" => return .text (← file.readText tree raw)
  | "readJson" => file.readJson tree raw
  | "readCsv" => return .list ((← file.readRows tree (rowFormat args) raw).map .map)
  | "readLines" => return .list ((← file.readLines tree raw).map .text)
  | "readBytes" => return .bytes (← file.readBytes tree raw)
  | _ => return .bool (file.holds tree raw)

end SandboxedFile

end TrieFeed
