import TrieFeed.Codec.Hex
import TrieFeed.Json.Reader
import TrieFeed.Script.Crossing
import TrieFeed.Script.Expr
/-!
# Reading scripts

A script is a document of entries, each with a name, an expression and perhaps its binding. Of
module text, as other programs write it, only what the small forms below need is understood.
-/
namespace TrieFeed.Script

def hexBytes (s : String) : Bytes := (Hex.decode s).toOption.getD []

/-- So many wrappings of a datum. -/
def wrapped (wrap : Datum → Datum) : Nat → Datum → Datum
  | 0, d => d
  | n + 1, d => wrapped wrap n (wrap d)

/-- Data that a document writes as a record with one field. -/
def taggedDatum? (tag : String) (body : Json) : Option Datum :=
  match tag, body with
  | "n", .text s => (Numeral.double? s.toList).map .number
  | "big", .text s => (Numeral.integer? s.toList).map .wide
  | "u8", .text s => some (.bytes (hexBytes s))
  | "sub", .text s => some (.bytes (hexBytes s))
  | "buf", .text s => some (.buffer (hexBytes s))
  | "u16", .text s => some (.units (hexBytes s))
  | "undef", _ => some .undefined
  | "fn", _ => some .function
  | "class", _ => some .newable
  | "sym", _ => some .symbol
  | "holes", .int n => some (.list (List.replicate n.toNat .gap))
  | "nest", .int n => some (wrapped (fun d => .list [d]) n.toNat (.ofInt 0))
  | "nesto", .int n => some (wrapped (fun d => .record [("a", d)] []) n.toNat (.ofInt 0))
  | "cycle", _ => some .endless
  | "error", .text s => some (.error s)
  | "hidden", .bool listed =>
    let shown : List (String × Datum) := [("shown", .ofInt 1)]
    let other : List (String × Datum) := [("hidden", .ofInt 2)]
    some (if listed then .record (shown ++ other) [] else .record shown other)
  | "date", _ => some (.record [] [])
  | "mapobj", _ => some (.record [] [])
  | "regex", _ => some (.record [] [])
  | _, _ => none

/-- Boxing leaves alone what is a record or a function already. -/
def box : Datum → Datum
  | .bool b => .boxed (.bool b)
  | .number x => .boxed (.number x)
  | .wide n => .boxed (.wide n)
  | .text s => .boxed (.text s)
  | .symbol => .boxed .symbol
  | .undefined | .null => .record [] []
  | d => d

mutual

def datum? : Json → Option Datum
  | .null => some .null
  | .bool b => some (.bool b)
  | .text s => some (.text s)
  | .int n => some (.ofInt n)
  | .float x => some (.number x)
  | .list items => (data? items).map .list
  | .object [("o", fields)] => (datumPairs? fields).map fun fs => .record (Fields.ofPairs fs) []
  | .object [("proto", fields)] => (datumPairs? fields).map fun fs => .record [] (Fields.ofPairs fs)
  | .object [("boxed", d)] => (datum? d).map box
  | .object [(tag, body)] => taggedDatum? tag body
  | .object _ => none

def data? : List Json → Option (List Datum)
  | [] => some []
  | j :: rest => do
    let d ← datum? j
    return d :: (← data? rest)

/-- Pairs of a name and a datum. -/
def datumPairs? : Json → Option (List (String × Datum))
  | .list items => datumPairList? items
  | _ => none

def datumPairList? : List Json → Option (List (String × Datum))
  | [] => some []
  | .list [.text name, j] :: rest => do
    let d ← datum? j
    return (name, d) :: (← datumPairList? rest)
  | _ :: _ => none

end

mutual

def expr? : Json → Option Expr
  | .list (.text head :: args) => form? head args
  | _ => none

/-- The expression that starts with a word. -/
def form? (head : String) : List Json → Option Expr
  | [] =>
    match head with
    | "argc" => some .argumentCount
    | "msg" => some .caughtMessage
    | "rethrow" => some .raiseCaught
    | "state" => some .state
    | "x" => some .item
    | "pending" => some .pending
    | _ => none
  | [.int i] => if head = "arg" then some (.argument i.toNat) else literalForm? head (.int i)
  | [.text s] =>
    match head with
    | "throw" => some (.raise s)
    | "reject" => some (.failed s)
    | "this" => some (.ownKind s)
    | _ => literalForm? head (.text s)
  | [j] =>
    match head with
    | "list" => (exprItems? j).map .list
    | "seq" => (exprItems? j).map .sequence
    | "obj" => (exprPairs? j).map .record
    | "typeof" => (expr? j).map .kindOf
    | "set" => (expr? j).map .setState
    | "len" => (expr? j).map .size
    | "json" => (expr? j).map .document
    | "resolve" => (expr? j).map .settled
    | "await" => (expr? j).map .wait
    | _ => literalForm? head j
  | [a, .text name] => if head = "get" then (expr? a).map (.field · name) else none
  | [a, b] => do
    let x ← expr? a
    let y ← expr? b
    match head with
    | "try" => some (.attempt x y)
    | "add" => some (.add x y)
    | "gt" => some (.greater x y)
    | "map" => some (.forEach x y)
    | _ => none
  | [.text object, .text method, args] =>
    match head with
    | "call" => (exprItems? args).map (.call object method)
    | "host" => (exprItems? args).map (.dispatch object method)
    | _ => none
  | [a, b, c] => do
    let x ← expr? a
    let y ← expr? b
    let z ← expr? c
    if head = "if" then some (.choose x y z) else none
  | _ => none

def literalForm? (head : String) (j : Json) : Option Expr :=
  match head with
  | "lit" => (datum? j).map .literal
  | "throwv" => (datum? j).map .raiseDatum
  | _ => none

def exprItems? : Json → Option (List Expr)
  | .list items => exprs? items
  | _ => none

def exprs? : List Json → Option (List Expr)
  | [] => some []
  | j :: rest => do
    let e ← expr? j
    return e :: (← exprs? rest)

def exprPairs? : Json → Option (List (String × Expr))
  | .list items => exprPairList? items
  | _ => none

def exprPairList? : List Json → Option (List (String × Expr))
  | [] => some []
  | .list [.text name, j] :: rest => do
    let e ← expr? j
    return (name, e) :: (← exprPairList? rest)
  | _ :: _ => none

end

def binding? (name : String) : Option Binding :=
  match name with
  | "fn" => some .function
  | "async" => some .asyncFunction
  | "const" => some .constant
  | "exports" => some .exported
  | "alias" => some .aliased
  | "replace" => some .replacing
  | "var" => some .assigned
  | "top" => some .statement
  | _ => none

def entry? : Json → Option Entry
  | .list [.text name, body] => do return ⟨name, ← expr? body, .function⟩
  | .list [.text name, body, .null] => do return ⟨name, ← expr? body, .function⟩
  | .list [.text name, body, .text binding] => do return ⟨name, ← expr? body, ← binding? binding⟩
  | _ => none

namespace Program

def empty : Program := ⟨.null, []⟩

def ofJson? (json : Json) : Option Program := do
  match json.field? "entries" with
  | some (.list entries) =>
    let start ← match json.field? "state" with
      | some state => datum? state
      | none => some .null
    return ⟨start, ← entries.mapM entry?⟩
  | _ => none

/-- What follows the end of a comment. -/
def afterComment : List Char → List Char
  | [] => []
  | '*' :: '/' :: rest => rest
  | _ :: rest => afterComment rest

/-- Drops blanks, and comments to the end of a line or between their marks. -/
def afterBlanks : Nat → List Char → List Char
  | 0, cs => cs
  | fuel + 1, cs =>
    match Text.trimStart cs with
    | '/' :: '/' :: rest => afterBlanks fuel (rest.dropWhile (· ≠ '\n'))
    | '/' :: '*' :: rest => afterBlanks fuel (afterComment rest)
    | rest => rest

def blanksDropped (cs : List Char) : List Char := afterBlanks (cs.length + 1) cs

/-- The words and marks of module text. -/
def wordsOf : Nat → List Char → List String
  | 0, _ => []
  | fuel + 1, cs =>
    match blanksDropped cs with
    | [] => []
    | c :: rest =>
      let inWord (c : Char) : Bool := c.isAlphanum || c = '_' || c = '$'
      if inWord c then
        .ofList (c :: rest.takeWhile inWord) :: wordsOf fuel (rest.dropWhile inWord)
      else c.toString :: wordsOf fuel rest

/-- A whole number or null, and nothing else. -/
def plainDatum? (word : String) : Option Datum :=
  if word = "null" then some .null else (Numeral.natural? word.toList).map fun n => .ofInt n

/-- The entries of module text of one statement: one that ends it, one that throws, or one that says
what it exports. -/
def entriesOfWords? : List String → Option (List Entry)
  | [] => some []
  | ["return", d, ";"] => (plainDatum? d).map fun _ => []
  | ["throw", d, ";"] => (plainDatum? d).map fun d => [⟨"", .raiseDatum d, .statement⟩]
  | ["module", ".", "exports", "=", d, ";"] => (plainDatum? d).map fun _ => []
  | ["module", ".", "exports", "=", "\x7b", name, ":", d, "\x7d", ";"] =>
    (plainDatum? d).map fun d => [⟨name, .literal d, .datum⟩]
  | ["module", ".", "exports", "=", "\x7b", name, ":", "function", "(", ")", "\x7b", "return", d,
      ";", "\x7d", "\x7d", ";"] =>
    (plainDatum? d).map fun d => [⟨name, .literal d, .replacing⟩]
  | _ => none

/-- Reads a script: a document, or else module text. -/
def read? (source : String) : Option Program :=
  match (Json.readNested? 1000 source).bind ofJson? with
  | some s => if s.isWellFormed then some s else none
  | none => (entriesOfWords? (wordsOf (source.length + 1) source.toList)).map (⟨.null, ·⟩)

end Program

end TrieFeed.Script
