import TrieFeed.Fields
import TrieFeed.Files.Path
import TrieFeed.Text.Utf8
/-!
# File trees

Files, directories and symbolic links under their places. Looking a path up follows links, at most
forty of them, and takes each `..` from where the links have led.
-/
namespace TrieFeed

inductive FileEntry where
  | file (content : Bytes)
  | directory
  | link (target : String)
deriving DecidableEq, Inhabited

/-- Why a path cannot be looked up or read. -/
inductive FileFault where
  | notFound
  | notDirectory
  | isDirectory
  | tooManyLinks
  | nameTooLong
  | zeroCharacter
  | notText
deriving DecidableEq, Inhabited

def FileFault.message : FileFault → String
  | notFound => "No such file or directory (os error 2)"
  | notDirectory => "Not a directory (os error 20)"
  | isDirectory => "Is a directory (os error 21)"
  | tooManyLinks => "Too many levels of symbolic links (os error 40)"
  | nameTooLong => "File name too long (os error 36)"
  | zeroCharacter => "file name contained an unexpected NUL byte"
  | notText => "stream did not contain valid UTF-8"

/-- The names that lead from the top directory to an entry. -/
abbrev Place := List String

structure FileTree where
  entries : List (Place × FileEntry)
  /-- The directory that relative paths start from. -/
  working : Place
deriving Inhabited

namespace FileTree

def maxLinks : Nat := 40
def maxNameSize : Nat := 255
def maxPathSize : Nat := 4095

def empty : FileTree := ⟨[], []⟩

/-- What stands at a place; the top is a directory. -/
def entry? (tree : FileTree) (place : Place) : Option FileEntry :=
  if place.isEmpty then some .directory
  else (tree.entries.find? (·.1 = place)).map (·.2)

/-- Puts an entry without regard for what is above it. -/
def put (place : Place) (entry : FileEntry) (tree : FileTree) : FileTree :=
  if (tree.entries.find? (·.1 = place)).isSome then
    { tree with entries := tree.entries.map fun e => if e.1 = place then (place, entry) else e }
  else { tree with entries := tree.entries ++ [(place, entry)] }

/-- Makes a directory where there is nothing yet. -/
def ensureDirectory (place : Place) (tree : FileTree) : FileTree :=
  if (tree.entry? place).isSome then tree else put place .directory tree

/-- Puts an entry and the directories above it. -/
def write (place : Place) (entry : FileEntry) (tree : FileTree) : FileTree :=
  let above := (List.range place.length).map place.take
  put place entry (above.foldl (fun t p => ensureDirectory p t) tree)

/-- Takes an entry away with all that is below it. -/
def remove (place : Place) (tree : FileTree) : FileTree :=
  { tree with entries := tree.entries.filter fun e => !place.isPrefixOf e.1 }

/-- The place that parts lead to from a directory, after all links. -/
def walk (tree : FileTree) (links : Nat) (place : Place) (parts : List Path.Part) :
    Except FileFault Place :=
  match parts with
  | [] => .ok place
  | .here :: rest => walk tree links place rest
  | .up :: rest => walk tree links place.dropLast rest
  | .name n :: rest =>
    if maxNameSize < Utf8.size n then .error .nameTooLong
    else match tree.entry? (place ++ [n]) with
      | none => .error .notFound
      | some .directory => walk tree links (place ++ [n]) rest
      | some (.file _) => if rest.isEmpty then .ok (place ++ [n]) else .error .notDirectory
      | some (.link target) =>
        let path := Path.read target
        match links with
        | 0 => .error .tooManyLinks
        | links + 1 => walk tree links (if path.absolute then [] else place) (path.parts ++ rest)
termination_by (links, parts.length)

/-- The place of a path; the path without any text leads nowhere. -/
def find (tree : FileTree) (path : Path) : Except FileFault Place :=
  if path.text.isEmpty then .error .notFound
  else if path.text.toList.contains '\x00' then .error .zeroCharacter
  else if maxPathSize < Utf8.size path.text then .error .nameTooLong
  else walk tree maxLinks (if path.absolute then [] else tree.working) path.parts

def Place.toPath (place : Place) : Path := ⟨true, place.map .name⟩

/-- The path without links, `.` and `..` to an entry that exists. -/
def canonical (tree : FileTree) (path : Path) : Except FileFault Path :=
  (tree.find path).map Place.toPath

def entryAt (tree : FileTree) (path : Path) : Except FileFault FileEntry := do
  match tree.entry? (← tree.find path) with
  | some entry => .ok entry
  | none => .error .notFound

def holds (tree : FileTree) (path : Path) : Bool := (tree.find path).isOk

def readBytes (tree : FileTree) (path : Path) : Except FileFault Bytes := do
  match ← tree.entryAt path with
  | .file content => .ok content
  | _ => .error .isDirectory

/-- The names in the directory at a place, in order. -/
def names (tree : FileTree) (place : Place) : List String :=
  (tree.entries.filterMap fun e =>
    if e.1.dropLast = place then e.1.getLast? else none).mergeSort fun a b => !(b < a)

def isFile (tree : FileTree) (path : Path) : Bool := (tree.readBytes path).isOk

def isDirectory (tree : FileTree) (path : Path) : Bool :=
  tree.entryAt path matches .ok .directory

def readText (tree : FileTree) (path : Path) : Except FileFault String := do
  match Utf8.decode? (← tree.readBytes path) with
  | some text => .ok text
  | none => .error .notText

end FileTree

end TrieFeed
