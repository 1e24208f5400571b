import TrieFeed.Toml.Scalar
/-!
# Reading TOML

A document is a sequence of lines: fields, headers of tables, comments and empty ones. Lists may run
over several lines and hold comments, tables in a line may not. Nesting is bounded.
-/
namespace TrieFeed.Toml

/-- Lists and tables nest less deeply than this, and keys have fewer parts. -/
def maxDepth : Nat := 80

def isKeyChar (c : Char) : Bool :=
  Numeral.isDigit c || ('a' ≤ c && c ≤ 'z') || ('A' ≤ c && c ≤ 'Z') || c = '-' || c = '_'

/-- One part of a key, bare or quoted. -/
def keyPart? (cs : List Char) : Option (String × List Char) :=
  match cs with
  | '"' :: rest => (basic? (rest.length + 1) rest).map fun (s, rest) => (.ofList s, rest)
  | '\'' :: rest => (literal? rest).map fun (s, rest) => (.ofList s, rest)
  | _ =>
    let name := cs.takeWhile isKeyChar
    if name.isEmpty then none else some (.ofList name, cs.drop name.length)

/-- Parts of a key between dots, and blanks around them. -/
def keyParts? : Nat → Reader (List String)
  | 0, _ => none
  | fuel + 1, cs =>
    (keyPart? (skipSpace cs)).bind fun (part, rest) =>
      match skipSpace rest with
      | '.' :: rest => (keyParts? fuel rest).map fun (parts, rest) => (part :: parts, rest)
      | rest => some ([part], rest)

def key? : Reader (List String) := keyParts? (maxDepth - 1)

/-- Skips blanks, ends of lines and comments, each of which ends with its line. -/
def skipLines? : Bool → List Char → Option (List Char)
  | _, '\n' :: rest => skipLines? false rest
  | _, '\r' :: '\n' :: rest => skipLines? false rest
  | true, c :: rest => if isPlain c then skipLines? true rest else none
  | true, [] => none
  | false, '#' :: rest => skipLines? true rest
  | false, ' ' :: rest => skipLines? false rest
  | false, '\t' :: rest => skipLines? false rest
  | false, cs => some cs

/-- The items of a list up to its closing bracket; a comma may stand before it. -/
def items? (item : Reader Toml) : Nat → Reader (List Toml)
  | 0, _ => none
  | fuel + 1, cs =>
    match skipLines? false cs with
    | none => none
    | some (']' :: rest) => some ([], rest)
    | some cs => do
      let (v, rest) ← item cs
      match ← skipLines? false rest with
      | ',' :: rest =>
        let (vs, rest) ← items? item fuel rest
        return (v :: vs, rest)
      | ']' :: rest => return ([v], rest)
      | _ => none

/-- A key, an equals sign and a value. -/
def field? (value : Reader Toml) (cs : List Char) :
    Option ((List String × Toml) × List Char) := do
  match ← key? cs with
  | (key, '=' :: rest) =>
    let (v, rest) ← value (skipSpace rest)
    return ((key, v), rest)
  | _ => none

/-- The fields of a table in a line up to its closing brace. -/
def fields? (value : Reader Toml) : Nat → Reader (List (List String × Toml))
  | 0, _ => none
  | fuel + 1, cs => do
    let (field, rest) ← field? value cs
    match skipSpace rest with
    | ',' :: rest =>
      let (fields, rest) ← fields? value fuel rest
      return (field :: fields, rest)
    | '\x7d' :: rest => return ([field], rest)
    | _ => none

/-- A table in a line, after its opening brace. -/
def lineTable? (value : Reader Toml) (cs : List Char) : Option (Toml × List Char) :=
  match skipSpace cs with
  | '\x7d' :: rest => some (.table .line [], rest)
  | _ => do
    let (fields, rest) ← fields? value cs.length cs
    return (← ofLine? fields, rest)

/-- A value with room for so many levels of lists and tables. -/
def value? : Nat → Reader Toml
  | 0, cs => scalar? cs
  | room + 1, cs =>
    match cs with
    | '[' :: rest =>
      (items? (value? room) (rest.length + 1) rest).map fun (items, rest) => (.list items, rest)
    | '\x7b' :: rest => lineTable? (value? room) rest
    | _ => scalar? cs

/-- The end of a line, after blanks and a comment, or the end of the document. -/
def lineEnd? (cs : List Char) : Option (List Char) :=
  let rest := match skipSpace cs with
    | '#' :: rest => rest.dropWhile isPlain
    | rest => rest
  if rest.isEmpty then some [] else afterNewline? rest

/-- What has been read: the document's table, and the path of the last header. -/
structure Draft where
  root : Fields Toml
  path : List String

/-- Sets a field in the table of the last header. -/
def Draft.put (d : Draft) (key : List String) (value : Toml) : Option Draft :=
  (within false (Toml.put key value) d.path .header d.root).map fun root => { d with root }

/-- One line, from its first character that is not blank. -/
def line? (d : Draft) (cs : List Char) : Option (Draft × List Char) :=
  match cs with
  | '[' :: '[' :: rest => do
    match ← key? rest with
    | (path, ']' :: ']' :: rest) => return (⟨← openElement path d.root, path⟩, ← lineEnd? rest)
    | _ => none
  | '[' :: rest => do
    match ← key? rest with
    | (path, ']' :: rest) => return (⟨← openTable path d.root, path⟩, ← lineEnd? rest)
    | _ => none
  | _ =>
    match lineEnd? cs with
    | some rest => some (d, rest)
    | none => do
      let ((key, value), rest) ← field? (value? (maxDepth - 1)) cs
      return (← d.put key value, ← lineEnd? rest)

def document? : Nat → Draft → List Char → Option (Fields Toml)
  | 0, _, _ => none
  | fuel + 1, d, cs =>
    match skipSpace cs with
    | [] => some d.root
    | cs => (line? d cs).bind fun (d, rest) => document? fuel d rest

/-- Reads a document; a byte order mark at its start is dropped. -/
def read? (text : String) : Option (Fields Toml) :=
  let cs := text.toList
  let cs := if cs.head? = some (.ofNat 0xfeff) then cs.drop 1 else cs
  document? (cs.length + 1) ⟨[], []⟩ cs

end TrieFeed.Toml
