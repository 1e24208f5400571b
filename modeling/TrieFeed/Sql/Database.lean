import TrieFeed.Fields
import TrieFeed.Sql.Statement
/-!
# Databases

Tables of rows under names in any case, and what statements do to them. A statement that fails
changes nothing.
-/
namespace TrieFeed.Sql

structure Table where
  columns : List Column
  rows : List (List Cell)
deriving DecidableEq, Inhabited

/-- Tables under their names in small letters. -/
structure Database where
  tables : Fields Table
deriving DecidableEq, Inhabited

/-- A row of a result: cells under the names of its columns. -/
abbrev ResultRow := List (String × Cell)

/-- What a statement yields: rows, and how many stored rows it changed, if it is of the kind that
changes rows. -/
structure Outcome where
  rows : List ResultRow
  changed : Option Nat
deriving DecidableEq, Inhabited

namespace Database

open TrieFeed.Sql.Expr (key placeOf?)

def empty : Database := ⟨[]⟩

def table? (name : String) (db : Database) : Option Table := Fields.get? (key name) db.tables

def setTable (name : String) (t : Table) (db : Database) : Database :=
  ⟨Fields.insert (key name) t db.tables⟩

/-- The one row of a query without a table. -/
def noTable : Table := ⟨[], [[]]⟩

/-- The rows where a condition is true. -/
def meeting? (parameters : List Cell) (t : Table) (condition : Option Expr) :
    Option (List (List Cell)) :=
  match condition with
  | none => some t.rows
  | some e =>
    if e.fits t.columns false then
      t.rows.filterM fun row => do
        return Expr.truth? (← e.eval? parameters t.columns [] row) = some true
    else none

/-- The outputs with every column of the table in place of a star. -/
def expanded? (t : Table) (hasTable : Bool) (outputs : List Output) :
    Option (List (String × Expr)) := do
  let parts ← outputs.mapM fun o =>
    match o with
    | .everything =>
      if hasTable then some (t.columns.map fun c => (c.name, Expr.column c.name)) else none
    | .expr e (some label) => some [(label, e)]
    | .expr e none => match e with
      | .column name => do
        let c ← t.columns[← placeOf? t.columns name]?
        return [(c.name, e)]
      | _ => none
  return parts.flatten

/-- What a sort key stands for: an output by its place or its name, or an expression of its own. -/
def sortExpr? (t : Table) (outputs : List (String × Expr)) : Expr → Option Expr
  | .constant (.int n) => if 1 ≤ n then (outputs[n.toNat - 1]?).map (·.2) else none
  | .column name =>
    match outputs.find? fun o => key o.1 = key name with
    | some (_, e) => some e
    | none => some (.column name)
  | e => some e
where
  /-- The keys of a query, each of which has to fit the table. -/
  all? (order : List SortKey) (aggregates : Bool) : Option (List (Expr × Bool)) :=
    order.mapM fun k => do
      let e ← sortExpr? t outputs k.expr
      if e.fits t.columns aggregates then return (e, k.descending) else none

/-- Whether a row with these keys comes no later than another. -/
def inOrder : List Bool → List Cell → List Cell → Bool
  | descending :: ds, a :: as, b :: bs =>
    match (if descending then b.order a else a.order b) with
    | .lt => true
    | .gt => false
    | .eq => inOrder ds as bs
  | _, _, _ => true

/-- How many rows a limit leaves: all of them below zero. -/
def limited? (parameters : List Cell) (limit : Option Expr) (rows : List ResultRow) :
    Option (List ResultRow) :=
  match limit with
  | none => some rows
  | some e => do
    if e.fits [] false then
      match ← e.eval? parameters [] [] [] with
      | .int n => return if n < 0 then rows else rows.take n.toNat
      | _ => none
    else none

def query? (parameters : List Cell) (q : Query) (db : Database) : Option (List ResultRow) := do
  let t ← match q.table with
    | some name => db.table? name
    | none => some noTable
  let outputs ← expanded? t q.table.isSome q.outputs
  let aggregates := outputs.any fun (_, e) => e.hasAggregate
  if outputs.all fun (_, e) => e.fits t.columns true then
    let keys ← sortExpr?.all? t outputs q.order aggregates
    let rows ← meeting? parameters t q.condition
    let shown := if aggregates then [rows.getLast?.getD []] else rows
    let results ← shown.mapM fun row => do
      let cells ← outputs.mapM fun (_, e) => e.eval? parameters t.columns rows row
      let sortCells ← keys.mapM fun (e, _) => e.eval? parameters t.columns rows row
      return (sortCells, (outputs.map (·.1)).zip cells)
    let sorted := results.mergeSort fun a b => inOrder (keys.map (·.2)) a.1 b.1
    limited? parameters q.limit (sorted.map (·.2))
  else none

/-- One more than the greatest number of a column. -/
def nextNumber (i : Nat) (rows : List (List Cell)) : Int :=
  rows.foldl (fun n row =>
    match row.getD i .null with
    | .int m => max n (m + 1)
    | _ => n) 1

/-- A row as a table stores it, after the rows that it has. -/
def storedRow (t : Table) (row : List Cell) : List Cell :=
  (t.columns.zip row).mapIdx fun i (c, cell) =>
    if c.counts && cell == .null then .int (nextNumber i t.rows) else c.affinity.store cell

/-- Rows stand in the order of the column that counts, if there is one. -/
def arranged (t : Table) : Table :=
  match t.columns.findIdx? (·.counts) with
  | none => t
  | some i =>
    { t with rows := t.rows.mergeSort fun r s => (r.getD i .null).order (s.getD i .null) != .gt }

/-- Whether every column has what it asks for. -/
def isSound (t : Table) : Bool :=
  t.columns.zipIdx.all fun (c, i) =>
    let cells := t.rows.map fun row => row.getD i .null
    let known := cells.filter (· ≠ .null)
    (!c.required || !cells.contains .null)
      && (!c.counts || cells.all fun c => c matches .int _)
      && (!c.unique || known.Pairwise fun a b => (a.order b == .eq) = false)

/-- A full row from the cells of some of its columns. -/
def fullRow? (t : Table) (columns : Option (List String)) (cells : List Cell) :
    Option (List Cell) :=
  match columns with
  | none => if cells.length = t.columns.length then some cells else none
  | some names => do
    let places ← names.mapM (placeOf? t.columns)
    if cells.length = names.length then
      return t.columns.mapIdx fun i _ =>
        ((places.zip cells).find? (·.1 = i)).elim .null (·.2)
    else none

/-- Puts rows behind the rows of a table. -/
def append? (name : String) (columns : Option (List String)) (rows : List (List Cell))
    (db : Database) : Option (Outcome × Database) := do
  let t ← db.table? name
  let t ← rows.foldlM (fun t cells => do
    let row ← fullRow? t columns cells
    return { t with rows := t.rows ++ [storedRow t row] }) t
  if isSound t then return (⟨[], some rows.length⟩, db.setTable name (arranged t)) else none

/-- A row after some of its columns were given new cells. -/
def changedRow? (parameters : List Cell) (t : Table) (changes : List (String × Expr))
    (row : List Cell) : Option (List Cell) :=
  changes.foldlM (fun new (column, e) => do
    let i ← placeOf? t.columns column
    let c ← t.columns[i]?
    return new.set i (c.affinity.store (← e.eval? parameters t.columns [] row))) row

/-- Runs a statement; it fails where it names what is not there or does not fit. -/
def run? (parameters : List Cell) (s : Statement) (db : Database) : Option (Outcome × Database) :=
  match s with
  | .select q => (db.query? parameters q).map fun rows => (⟨rows, none⟩, db)
  | .create name columns unlessThere =>
    if (db.table? name).isSome then
      if unlessThere then some (⟨[], none⟩, db) else none
    else if (columns.map fun c => key c.name).Nodup then
      some (⟨[], none⟩, db.setTable name ⟨columns, []⟩)
    else none
  | .drop name ifThere =>
    if (db.table? name).isSome then some (⟨[], none⟩, ⟨Fields.erase (key name) db.tables⟩)
    else if ifThere then some (⟨[], none⟩, db)
    else none
  | .insert name columns rows => do
    if rows.all fun row => row.all (·.fits [] false) then
      append? name columns (← rows.mapM fun row => row.mapM (·.eval? parameters [] [] [])) db
    else none
  | .insertFrom name columns q => do
    append? name columns ((← db.query? parameters q).map fun row => row.map (·.2)) db
  | .update name changes condition => do
    let t ← db.table? name
    if changes.all fun (c, e) => (placeOf? t.columns c).isSome && e.fits t.columns false then
      let hit ← meeting? parameters t condition
      let rows ← t.rows.mapM fun row => do
        let meets ← meeting? parameters ⟨t.columns, [row]⟩ condition
        if meets.isEmpty then return row else changedRow? parameters t changes row
      let t := { t with rows }
      if isSound t then return (⟨[], some hit.length⟩, db.setTable name (arranged t)) else none
    else none
  | .delete name condition => do
    let t ← db.table? name
    let gone ← meeting? parameters t condition
    let rows ← t.rows.filterM fun row => do
      return (← meeting? parameters ⟨t.columns, [row]⟩ condition).isEmpty
    return (⟨[], some gone.length⟩, db.setTable name { t with rows })

/-- What a text of statements has led to: the rows of all of them, or a failure, the number of rows
they changed together, and the number that the last change of all changed. -/
structure Course where
  rows : Option (List ResultRow)
  changed : Nat
  lastChanged : Nat
  database : Database

/-- Runs the statements of a text one after the other, up to the first that fails. What those before
it did stays. A statement that changes no rows counts as many as the last change before it. -/
def runAll (parameters : List Cell) (lastChanged : Nat) (sql : String) (db : Database) : Course :=
  ((Lexeme.statements (Lexeme.scan sql)).filter (!·.isEmpty)).foldl
    (fun c ts =>
      match c.rows, (Statement.read? ts).bind fun s => run? parameters s c.database with
      | some rows, some (outcome, db) =>
        let n := outcome.changed.getD c.lastChanged
        ⟨some (rows ++ outcome.rows), c.changed + n, n, db⟩
      | _, _ => { c with rows := none })
    ⟨some [], 0, lastChanged, db⟩

end Database

end TrieFeed.Sql
