import TrieFeed.Text.Blank
/-!
# Paths

A path is a list of parts below the top directory, or below wherever it is joined to. Normalizing it
is a matter of its parts alone and asks no file system.
-/
namespace TrieFeed

inductive Path.Part where
  /-- The directory itself. -/
  | here
  /-- The directory above. -/
  | up
  | name (s : String)
deriving DecidableEq, Inhabited

structure Path where
  absolute : Bool
  parts : List Path.Part
deriving DecidableEq, Inhabited

namespace Path

/-- Empty parts, of separators repeated or at the end, are none. -/
def Part.read? (cs : List Char) : Option Part :=
  match cs with
  | [] => none
  | ['.'] => some .here
  | ['.', '.'] => some .up
  | _ => some (.name (.ofList cs))

def Part.text : Part → String
  | here => "."
  | up => ".."
  | name s => s

def read (text : String) : Path :=
  let cs := text.toList
  ⟨cs.head? == some '/', (Text.splitOn '/' cs).filterMap Part.read?⟩

def text (p : Path) : String :=
  (if p.absolute then "/" else "") ++ "/".intercalate (p.parts.map Part.text)

/-- The second path seen from the first, which an absolute one ignores. -/
def join (a b : Path) : Path := if b.absolute then b else ⟨a.absolute, a.parts ++ b.parts⟩

/-- Folds parts onto a stack of those before, the last one first. -/
def foldParts : List Part → List Part → List Part
  | stack, [] => stack.reverse
  | stack, .here :: rest => foldParts stack rest
  | .name _ :: stack, .up :: rest => foldParts stack rest
  | stack, part :: rest => foldParts (part :: stack) rest

/-- Drops each `.` and folds each `..` into the name before it, if there is one. -/
def normalize (p : Path) : Path := ⟨p.absolute, foldParts [] p.parts⟩

/-- The path above, by the parts alone. -/
def parent (p : Path) : Path := ⟨p.absolute, p.parts.dropLast⟩

/-- The last name, or the whole text when the last part is none. -/
def lastName (p : Path) : String :=
  match p.parts.getLast? with
  | some (.name s) => s
  | _ => p.text

/-- Whether a path leads to `root` or below it, part by part. -/
def startsWith (p root : Path) : Bool :=
  p.absolute == root.absolute && root.parts.isPrefixOf p.parts

end Path

end TrieFeed
