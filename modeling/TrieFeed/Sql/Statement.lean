import TrieFeed.Sql.Expr
/-!
# Statements

The statements that tables understand, and how they are read. Keywords and names are the same in any
case.
-/
namespace TrieFeed.Sql

/-- The columns of a result. -/
inductive Output where
  | everything
  | expr (e : Expr) (label : Option String)
deriving DecidableEq, Inhabited

/-- What the rows are ordered by. -/
structure SortKey where
  expr : Expr
  descending : Bool
deriving DecidableEq, Inhabited

structure Query where
  outputs : List Output
  table : Option String
  condition : Option Expr
  order : List SortKey
  limit : Option Expr
deriving DecidableEq, Inhabited

inductive Statement where
  | create (table : String) (columns : List Column) (unlessThere : Bool)
  | drop (table : String) (ifThere : Bool)
  | insert (table : String) (columns : Option (List String)) (rows : List (List Expr))
  | insertFrom (table : String) (columns : Option (List String)) (query : Query)
  | update (table : String) (changes : List (String × Expr)) (condition : Option Expr)
  | delete (table : String) (condition : Option Expr)
  | select (query : Query)
deriving DecidableEq, Inhabited

namespace Statement

open TrieFeed.Sql.Expr (keyword? mark? name?)

/-- One or more things with commas between; `fuel` bounds their number. -/
def listOf {α : Type} (read : List Lexeme → Option (α × List Lexeme)) :
    Nat → List Lexeme → Option (List α × List Lexeme)
  | 0, _ => none
  | fuel + 1, ts =>
    (read ts).bind fun (a, rest) =>
      match mark? "," rest with
      | some rest => (listOf read fuel rest).map fun (as, rest) => (a :: as, rest)
      | none => some ([a], rest)

def commaList {α : Type} (read : List Lexeme → Option (α × List Lexeme)) (ts : List Lexeme) :
    Option (List α × List Lexeme) := listOf read (ts.length + 1) ts

/-- Something between brackets. -/
def bracketed {α : Type} (read : List Lexeme → Option (α × List Lexeme)) (ts : List Lexeme) :
    Option (α × List Lexeme) := do
  let (a, rest) ← read (← mark? "(" ts)
  return (a, ← mark? ")" rest)

/-- Several keywords in a row. -/
def keywords? (keys : List String) (ts : List Lexeme) : Option (List Lexeme) :=
  keys.foldlM (fun ts key => keyword? key ts) ts

/-- Takes keywords off the front where they are there. -/
def whether (keys : List String) (ts : List Lexeme) : Bool × List Lexeme :=
  match keywords? keys ts with
  | some rest => (true, rest)
  | none => (false, ts)

/-- What follows a keyword, where it is there. -/
def after? {α : Type} (keys : List String) (read : List Lexeme → Option (α × List Lexeme))
    (ts : List Lexeme) : Option (Option α × List Lexeme) :=
  match keywords? keys ts with
  | none => some (none, ts)
  | some rest => (read rest).map fun (a, rest) => (some a, rest)

/-- A name that a result's column is given, which may be written as a text. -/
def label? : List Lexeme → Option (String × List Lexeme)
  | ⟨.literal (.text s), _, _⟩ :: rest => some (s, rest)
  | ts => name? ts

/-- A column of a result. One without a name takes its own text, or that of the column it shows. -/
def output? (ts : List Lexeme) : Option (Output × List Lexeme) :=
  match mark? "*" ts with
  | some rest => some (.everything, rest)
  | none => do
    let (e, rest) ← Expr.read? ts
    match keyword? "as" rest with
    | some rest =>
      let (label, rest) ← label? rest
      return (.expr e (some label), rest)
    | none =>
      match label? rest with
      | some (label, rest) => return (.expr e (some label), rest)
      | none => match e with
        | .column _ => return (.expr e none, rest)
        | _ => return (.expr e (some (Lexeme.textBefore ts rest)), rest)

def sortKey? (ts : List Lexeme) : Option (SortKey × List Lexeme) := do
  let (e, rest) ← Expr.read? ts
  match keyword? "desc" rest with
  | some rest => return (⟨e, true⟩, rest)
  | none => return (⟨e, false⟩, (keyword? "asc" rest).getD rest)

/-- What follows the keyword of a query. -/
def query? (ts : List Lexeme) : Option (Query × List Lexeme) := do
  let (outputs, rest) ← commaList output? ts
  let (table, rest) ← after? ["from"] name? rest
  let (condition, rest) ← after? ["where"] Expr.read? rest
  let (order, rest) ← after? ["order", "by"] (commaList sortKey?) rest
  let (limit, rest) ← after? ["limit"] Expr.read? rest
  return (⟨outputs, table, condition, order.getD [], limit⟩, rest)

/-- The words of a declared type, and a size between brackets. -/
def typeName : List Lexeme → List String × List Lexeme
  | ⟨.word w, start, stop⟩ :: rest =>
    if ["primary", "not", "unique"].contains (Text.asciiLower w) then
      ([], ⟨.word w, start, stop⟩ :: rest)
    else
      let (words, rest) := typeName rest
      (w :: words, rest)
  | ⟨.mark "(", _, _⟩ :: ⟨.literal (.int _), _, _⟩ :: ⟨.mark ")", _, _⟩ :: rest => ([], rest)
  | ts => ([], ts)

/-- What a column asks of its cells; `fuel` bounds the number of demands. -/
def demands : Nat → Column → List Lexeme → Column × List Lexeme
  | 0, c, ts => (c, ts)
  | fuel + 1, c, ts =>
    match keywords? ["not", "null"] ts, keyword? "unique" ts, keywords? ["primary", "key"] ts with
    | some rest, _, _ => demands fuel { c with required := true } rest
    | none, some rest, _ => demands fuel { c with unique := true } rest
    | none, none, some rest =>
      let rest := (keyword? "autoincrement" rest).getD rest
      demands fuel { c with unique := true, counts := c.counts } rest
    | none, none, none => (c, ts)

/-- A column of a new table. A whole-number column that is its key counts by itself. -/
def column? (ts : List Lexeme) : Option (Column × List Lexeme) := do
  let (name, rest) ← name? ts
  let (words, rest) := typeName rest
  let declared := " ".intercalate words
  let counts := Text.asciiLower declared = "integer" && (keywords? ["primary", "key"] rest).isSome
  return demands rest.length ⟨name, .ofType declared, false, false, counts⟩ rest

def insert? (ts : List Lexeme) : Option (Statement × List Lexeme) := do
  let (table, rest) ← name? (← keyword? "into" ts)
  let (columns, rest) ← match mark? "(" rest with
    | none => some (none, rest)
    | some _ => (bracketed (commaList name?) rest).map fun (names, rest) => (some names, rest)
  match keyword? "values" rest with
  | some rest =>
    let (rows, rest) ← commaList (bracketed (commaList Expr.read?)) rest
    return (.insert table columns rows, rest)
  | none =>
    let (query, rest) ← query? (← keyword? "select" rest)
    return (.insertFrom table columns query, rest)

def change? (ts : List Lexeme) : Option ((String × Expr) × List Lexeme) := do
  let (column, rest) ← name? ts
  let (e, rest) ← Expr.read? (← mark? "=" rest)
  return ((column, e), rest)

def update? (ts : List Lexeme) : Option (Statement × List Lexeme) := do
  let (table, rest) ← name? ts
  let (changes, rest) ← commaList change? (← keyword? "set" rest)
  let (condition, rest) ← after? ["where"] Expr.read? rest
  return (.update table changes condition, rest)

/-- Reads a statement after its first keyword. -/
def body? (key : String) (ts : List Lexeme) : Option (Statement × List Lexeme) :=
  match key with
  | "select" => (query? ts).map fun (q, rest) => (.select q, rest)
  | "insert" => insert? ts
  | "update" => update? ts
  | "delete" => do
    let (table, rest) ← name? (← keyword? "from" ts)
    let (condition, rest) ← after? ["where"] Expr.read? rest
    return (.delete table condition, rest)
  | "create" => do
    let (unlessThere, rest) := whether ["if", "not", "exists"] (← keyword? "table" ts)
    let (table, rest) ← name? rest
    let (columns, rest) ← bracketed (commaList column?) rest
    return (.create table columns unlessThere, rest)
  | "drop" => do
    let (ifThere, rest) := whether ["if", "exists"] (← keyword? "table" ts)
    let (table, rest) ← name? rest
    return (.drop table ifThere, rest)
  | _ => none

/-- Reads one statement. -/
def read? : List Lexeme → Option Statement
  | ⟨.word key, _, _⟩ :: ts =>
    match body? (Text.asciiLower key) ts with
    | some (s, []) => some s
    | _ => none
  | _ => none

end Statement

end TrieFeed.Sql
