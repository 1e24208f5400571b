import TrieFeed.Fields
import TrieFeed.Files.Tree
import TrieFeed.Text.Lines
/-!
# Environment variables

A file beside the application can add variables to those of its environment, which it never changes.
Its lines are read up to the first that is none.
-/
namespace TrieFeed.App

/-- Variables in the order in which they were set. -/
abbrev Variables := Fields String

namespace Variables

def fileName : String := ".env"

def isNameStart (c : Char) : Bool := c.isAlpha || c = '_'

def isNamePart (c : Char) : Bool := c.isAlphanum || c = '_' || c = '.'

/-- A name at the start of a line, with what follows it and its blanks. -/
def name? (cs : List Char) : Option (String × List Char) :=
  match cs with
  | c :: _ =>
    if isNameStart c then
      some (.ofList (cs.takeWhile isNamePart), Text.trimStart (cs.dropWhile isNamePart))
    else none
  | [] => none

/-- How a character of a value is taken. -/
inductive Quoting where
  | plain
  | strong
  | weak
deriving DecidableEq

def escaped? (c : Char) : Option Char :=
  if c = 'n' then some '\n'
  else if c = '\\' ∨ c = '\'' ∨ c = '"' ∨ c = '$' ∨ c = ' ' then some c
  else none

/-- What may stand after a value: blanks and a comment. -/
def endsLine (cs : List Char) : Bool :=
  let rest := cs.dropWhile fun c => c = ' ' || c = '\t'
  rest.isEmpty || rest.head? = some '#'

/-- The variable that a dollar sign refers to, the character after a name without braces, which is
taken as it stands, and the rest. -/
def reference? (cs : List Char) : Option (String × List Char × List Char) :=
  match cs with
  | '\x7b' :: rest => (Text.cutAt? '\x7d' rest).map fun (name, rest) => (.ofList name, [], rest)
  | _ =>
    let name := String.ofList (cs.takeWhile Char.isAlphanum)
    match cs.dropWhile Char.isAlphanum with
    | [] => some (name, [], [])
    | '$' :: rest => some (name, [], '$' :: rest)
    | c :: rest => some (name, [c], rest)

/-- The value that the rest of a line writes. -/
def value? (known : Variables) : Nat → Quoting → List Char → Option (List Char)
  | 0, _, _ => none
  | fuel + 1, quoting, cs =>
    match cs, quoting with
    | [], .plain => some []
    | [], _ => none
    | '\'' :: rest, .strong => value? known fuel .plain rest
    | c :: rest, .strong => (value? known fuel .strong rest).map (c :: ·)
    | '$' :: rest, _ =>
      (reference? rest).bind fun (name, next, rest) =>
        let inner := ((Fields.get? name known).getD "").toList
        (value? known fuel quoting rest).map fun more => inner ++ next ++ more
    | '\\' :: c :: rest, _ =>
      (escaped? c).bind fun c => (value? known fuel quoting rest).map (c :: ·)
    | ['\\'], .plain => some []
    | '"' :: rest, .weak => value? known fuel .plain rest
    | c :: rest, .weak => (value? known fuel .weak rest).map (c :: ·)
    | c :: rest, .plain =>
      if c = '\'' then value? known fuel .strong rest
      else if c = '"' then value? known fuel .weak rest
      else if c = ' ' ∨ c = '\t' then if endsLine rest then some [] else none
      else (value? known fuel .plain rest).map (c :: ·)

/-- What a line does. -/
inductive Line where
  | empty
  | sets (name value : String)
  | wrong

def assignment (known : Variables) (name : String) (cs : List Char) : Line :=
  match cs with
  | '=' :: rest =>
    let rest := Text.trimStart rest
    if rest.isEmpty || rest.head? = some '#' then .sets name ""
    else match value? known (rest.length + 1) .plain rest with
      | some value => .sets name (.ofList value)
      | none => .wrong
  | _ => .wrong

def lineOf (known : Variables) (cs : List Char) : Line :=
  let cs := Text.trimStart cs
  if cs.isEmpty || cs.head? = some '#' then .empty
  else match name? cs with
    | none => .wrong
    | some (name, rest) =>
      if name = "export" ∧ rest.head? ≠ some '=' then
        match name? rest with
        | some (name, rest) => assignment known name rest
        | none => .wrong
      else assignment known name rest

/-- Adds what lines set to variables, without changing any. -/
def withLines : List (List Char) → Variables → Variables
  | [], known => known
  | line :: rest, known =>
    match lineOf known line with
    | .empty => withLines rest known
    | .wrong => known
    | .sets name value =>
      withLines rest (if Fields.has name known then known else known ++ [(name, value)])

/-- The file in the working directory or the nearest one above. -/
def fileIn? (files : FileTree) : Nat → Option String
  | 0 => (files.readText ⟨true, [.name fileName]⟩).toOption
  | depth + 1 =>
    let path : Path := ⟨true, ((files.working.take (depth + 1)) ++ [fileName]).map .name⟩
    if files.isFile path then (files.readText path).toOption else fileIn? files depth

/-- The variables of the environment and of the file. -/
def withFile (files : FileTree) (known : Variables) : Variables :=
  match fileIn? files files.working.length with
  | some text => withLines (Text.linesOf text.toList) known
  | none => known

end Variables

end TrieFeed.App
