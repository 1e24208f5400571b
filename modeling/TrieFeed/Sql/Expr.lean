import TrieFeed.Sql.Lexeme
/-!
# Expressions of statements

Cells computed from the columns of a row, from parameters and from each other. Null stands for what
is not known: a comparison with it is null, and a condition holds only where it is true.
-/
namespace TrieFeed.Sql

inductive Operator where
  | or
  | and
  | eq
  | ne
  /-- Equality that holds between nulls. -/
  | same
  | differs
  | lt
  | le
  | gt
  | ge
  | add
  | sub
  | mul
deriving DecidableEq, Inhabited

/-- What is computed over all rows of a query. -/
inductive Aggregate where
  | count
  | sum
  | min
  | max
deriving DecidableEq, Inhabited

inductive Expr where
  | constant (c : Cell)
  | parameter (i : Nat)
  | column (name : String)
  | not (e : Expr)
  | negate (e : Expr)
  | binary (op : Operator) (a b : Expr)
  | countRows
  | aggregate (f : Aggregate) (e : Expr)
deriving DecidableEq, Inhabited

/-- What a column does to the cells that it stores. -/
inductive Affinity where
  | blob
  | text
  | numeric
  | integer
  | real
deriving DecidableEq, Inhabited

namespace Affinity

/-- The affinity of a declared type, from the words that occur in it. -/
def ofType (declared : String) : Affinity :=
  let t := Text.asciiLower declared
  let has (part : String) : Bool := Text.contains t part
  if has "int" then .integer
  else if has "char" || has "clob" || has "text" then .text
  else if has "blob" || t = "" then .blob
  else if has "real" || has "floa" || has "doub" then .real
  else .numeric

def isNumeric : Affinity → Bool
  | .numeric | .integer | .real => true
  | _ => false

/-- A text that reads as a number becomes one, and a double that is a whole number of a word becomes
that number. -/
def toNumber (c : Cell) : Cell :=
  match c with
  | .text s =>
    let cs := Text.trim s.toList
    match Lexeme.numberOf? cs with
    | some n =>
      let plain := match cs with
        | '-' :: cs | '+' :: cs => cs
        | cs => cs
      if Lexeme.numeral plain = plain then n else c
    | none => c
  | _ => c

def toWhole (c : Cell) : Cell :=
  match c with
  | .real x => match x.integral? with
    | some n => if Numeral.fitsSigned 64 n then .int n else c
    | none => c
  | _ => c

/-- A cell as a column stores it. -/
def store : Affinity → Cell → Cell
  | .blob, c => c
  | .text, .int n => .text (toString n)
  | .text, c => c
  | .real, c => match toNumber c with
    | .int n => .real (.ofInt n)
    | c => c
  | _, c => toWhole (toNumber c)

end Affinity

/-- A column of a table, and what it asks of its cells. -/
structure Column where
  name : String
  affinity : Affinity
  required : Bool
  unique : Bool
  /-- Whether a null is replaced by the next free number. -/
  counts : Bool
deriving DecidableEq, Inhabited

namespace Expr

/-- Names are the same in any case. -/
def key (name : String) : String := Text.asciiLower name

/-- The place of a column. -/
def placeOf? (columns : List Column) (name : String) : Option Nat :=
  columns.findIdx? fun c => key c.name = key name

/-- Whether every column that an expression names is there; aggregates stand only where they may,
and not in each other. -/
def fits (columns : List Column) (aggregates : Bool) : Expr → Bool
  | .constant _ | .parameter _ => true
  | .column name => (placeOf? columns name).isSome
  | .not e | .negate e => e.fits columns aggregates
  | .binary _ a b => a.fits columns aggregates && b.fits columns aggregates
  | .countRows => aggregates
  | .aggregate _ e => aggregates && e.fits columns false

def hasAggregate : Expr → Bool
  | .countRows | .aggregate _ _ => true
  | .not e | .negate e => e.hasAggregate
  | .binary _ a b => a.hasAggregate || b.hasAggregate
  | _ => false

/-- The affinity of an expression; only columns have one. -/
def affinity? (columns : List Column) : Expr → Option Affinity
  | .column name => (placeOf? columns name).bind fun i => (columns[i]?).map (·.affinity)
  | _ => none

/-- The sides of a comparison, after a side without affinity of its own took on the other's. -/
def sides (p q : Option Affinity) (a b : Cell) : Cell × Cell :=
  let numeric (r : Option Affinity) : Bool := r.any Affinity.isNumeric
  if numeric p ∧ ¬ numeric q then (a, Affinity.toNumber b)
  else if numeric q ∧ ¬ numeric p then (Affinity.toNumber a, b)
  else if p = some .text ∧ q = none then (a, Affinity.store .text b)
  else if q = some .text ∧ p = none then (Affinity.store .text a, b)
  else (a, b)

/-- Truth in three values of two conditions together. -/
def both : Option Bool → Option Bool → Option Bool
  | some false, _ | _, some false => some false
  | some true, some true => some true
  | _, _ => none

def either (p q : Option Bool) : Option Bool := (both (p.map (!·)) (q.map (!·))).map (!·)

def ofTruth (t : Option Bool) : Cell := (t.map Cell.ofBool).getD .null

/-- The number at the front of a text, or else zero. -/
def leadingNumber (cs : List Char) : Cell :=
  let cs := Text.trimStart cs
  let (sign, rest) := match cs with
    | '-' :: rest => (['-'], rest)
    | '+' :: rest => ([], rest)
    | rest => ([], rest)
  (Lexeme.numberOf? (sign ++ Lexeme.numeral rest)).getD (.int 0)

/-- What a cell counts as where a number is asked for. -/
def toNumber : Cell → Cell
  | .text s => leadingNumber s.toList
  | .blob b => leadingNumber (b.map fun b => .ofNat b.toNat)
  | c => c

def truth? (c : Cell) : Option Bool :=
  match toNumber c with
  | .int n => some (n ≠ 0)
  | .real x => some (Cell.compareMixed 0 x ≠ .eq)
  | _ => none

/-- Two whole numbers give a whole number where a word holds it, and all others a double. -/
def arithmetic (op : Operator) (a b : Cell) : Cell :=
  match toNumber a, toNumber b with
  | .int m, .int n =>
    let r := match op with
      | .add => m + n
      | .sub => m - n
      | _ => m * n
    if Numeral.fitsSigned 64 r then .int r else .real (.ofInt r)
  | a, b => match a.double?, b.double? with
    | some x, some y => Cell.ofDouble (match op with
      | .add => x.add y
      | .sub => x.add y.neg
      | _ => x.mul y)
    | _, _ => .null

def apply (op : Operator) (p q : Option Affinity) (a b : Cell) : Cell :=
  let compared (holds : Ordering → Bool) : Cell :=
    let (a, b) := sides p q a b
    if a = .null ∨ b = .null then .null else .ofBool (holds (a.order b))
  match op with
  | .or => ofTruth (either (truth? a) (truth? b))
  | .and => ofTruth (both (truth? a) (truth? b))
  | .eq => compared (· == .eq)
  | .ne => compared (· != .eq)
  | .same => let (a, b) := sides p q a b; .ofBool (a.order b == .eq)
  | .differs => let (a, b) := sides p q a b; .ofBool (a.order b != .eq)
  | .lt => compared (· == .lt)
  | .le => compared (· != .gt)
  | .gt => compared (· == .gt)
  | .ge => compared (· != .lt)
  | op => arithmetic op a b

/-- The least cell by an order. -/
def least? (before : Cell → Cell → Bool) : List Cell → Option Cell
  | [] => none
  | c :: cs => some (cs.foldl (fun m c => if before c m then c else m) c)

/-- A sum of whole numbers has to fit in a word; with any other cell the sum is a double. -/
def sum? (cs : List Cell) : Option Cell :=
  if cs.isEmpty then some .null
  else cs.foldlM
    (fun total c =>
      match total, Affinity.toNumber c with
      | .int m, .int n => if Numeral.fitsSigned 64 (m + n) then some (.int (m + n)) else none
      | total, c => some (arithmetic .add total (((toNumber c).double?.map .real).getD c)))
    (.int 0)

/-- Nulls count for nothing. -/
def Aggregate.of? (f : Aggregate) (cells : List Cell) : Option Cell :=
  let cells := cells.filter (· ≠ .null)
  match f with
  | .count => some (.int cells.length)
  | .sum => sum? cells
  | .min => some ((least? (fun a b => a.order b == .lt) cells).getD .null)
  | .max => some ((least? (fun a b => a.order b == .gt) cells).getD .null)

/-- The cell of an expression at a row, which is one of the rows that aggregates see. A parameter
that was not given is null. -/
def eval? (parameters : List Cell) (columns : List Column) (rows : List (List Cell))
    (row : List Cell) : Expr → Option Cell
  | .constant c => some c
  | .parameter i => some (parameters.getD i .null)
  | .column name => some (((placeOf? columns name).bind (row[·]?)).getD .null)
  | .not e => do
    return ofTruth ((truth? (← e.eval? parameters columns rows row)).map (!·))
  | .negate e => do
    return arithmetic .sub (.int 0) (← e.eval? parameters columns rows row)
  | .binary op a b => do
    let x ← a.eval? parameters columns rows row
    let y ← b.eval? parameters columns rows row
    return apply op (a.affinity? columns) (b.affinity? columns) x y
  | .countRows => some (.int rows.length)
  | .aggregate f e => do
    Aggregate.of? f (← rows.mapM fun row => e.eval? parameters columns [] row)

/-- Takes a keyword off the front. -/
def keyword? (key : String) : List Lexeme → Option (List Lexeme)
  | ⟨.word w, _, _⟩ :: rest => if Text.asciiLower w = key then some rest else none
  | _ => none

def mark? (m : String) : List Lexeme → Option (List Lexeme)
  | ⟨.mark n, _, _⟩ :: rest => if m = n then some rest else none
  | _ => none

def keywords : List String :=
  ["select", "from", "where", "as", "insert", "into", "values", "update", "set", "delete", "create",
    "table", "drop", "null", "and", "or", "not", "is", "order", "by", "limit", "primary", "unique",
    "in", "between", "like", "group", "having", "join", "on", "union", "distinct", "case"]

def name? : List Lexeme → Option (String × List Lexeme)
  | ⟨.word w, _, _⟩ :: rest =>
    if keywords.contains (Text.asciiLower w) then none else some (w, rest)
  | ⟨.name n, _, _⟩ :: rest => some (n, rest)
  | _ => none

/-- An operator of a level at the front; higher levels bind tighter. -/
def operator? (level : Nat) (ts : List Lexeme) : Option (Operator × List Lexeme) :=
  let marked (m : String) (op : Operator) := (mark? m ts).map fun rest => (op, rest)
  match level with
  | 0 => (keyword? "or" ts).map fun rest => (.or, rest)
  | 1 => (keyword? "and" ts).map fun rest => (.and, rest)
  | 2 =>
    marked "=" .eq <|> marked "==" .eq <|> marked "<>" .ne <|> marked "!=" .ne <|>
      (keyword? "is" ts).map fun rest =>
        match keyword? "not" rest with
        | some rest => (.differs, rest)
        | none => (.same, rest)
  | 3 => marked "<=" .le <|> marked "<" .lt <|> marked ">=" .ge <|> marked ">" .gt
  | 4 => marked "+" .add <|> marked "-" .sub
  | 5 => marked "*" .mul
  | _ => none

/-- The number of levels of operators. -/
def levels : Nat := 6

def aggregateOf? (name : String) : Option Aggregate :=
  match Text.asciiLower name with
  | "count" => some .count
  | "sum" => some .sum
  | "min" => some .min
  | "max" => some .max
  | _ => none

mutual

/-- An expression whose operators are of a level or above; `fuel` bounds the steps. -/
def level? : Nat → Nat → List Lexeme → Option (Expr × List Lexeme)
  | 0, _, _ => none
  | fuel + 1, level, ts =>
    if levels ≤ level then operand? fuel ts
    else (level? fuel (level + 1) ts).bind fun (e, rest) => chain? fuel level e rest

/-- Further operands of one level, grouped from the left. -/
def chain? : Nat → Nat → Expr → List Lexeme → Option (Expr × List Lexeme)
  | 0, _, _, _ => none
  | fuel + 1, level, e, ts =>
    match operator? level ts with
    | none => some (e, ts)
    | some (op, rest) =>
      (level? fuel (level + 1) rest).bind fun (f, rest) => chain? fuel level (.binary op e f) rest

/-- A single operand. A denial reaches as far as equalities do. -/
def operand? : Nat → List Lexeme → Option (Expr × List Lexeme)
  | 0, _ => none
  | fuel + 1, ts =>
    match ts with
    | ⟨.parameter i, _, _⟩ :: rest => some (.parameter i, rest)
    | ⟨.literal c, _, _⟩ :: rest => some (.constant c, rest)
    | ⟨.mark "-", _, _⟩ :: ⟨.literal (.real x), _, _⟩ :: rest =>
      some (.constant (.real (.ofMagnitudeBits true x.bits.toNat)), rest)
    | ⟨.mark "-", _, _⟩ :: rest => (operand? fuel rest).map fun (e, rest) => (.negate e, rest)
    | ⟨.mark "+", _, _⟩ :: rest => operand? fuel rest
    | ⟨.mark "(", _, _⟩ :: rest => do
      let (e, rest) ← level? fuel 0 rest
      return (e, ← mark? ")" rest)
    | ⟨.word w, start, stop⟩ :: rest =>
      match Text.asciiLower w with
      | "null" => some (.constant .null, rest)
      | "true" => some (.constant (.ofBool true), rest)
      | "false" => some (.constant (.ofBool false), rest)
      | "not" => (level? fuel 2 rest).map fun (e, rest) => (.not e, rest)
      | _ =>
        match aggregateOf? w, rest with
        | some .count, ⟨.mark "(", _, _⟩ :: ⟨.mark "*", _, _⟩ :: rest =>
          (mark? ")" rest).map fun rest => (.countRows, rest)
        | some f, ⟨.mark "(", _, _⟩ :: rest =>
          (level? fuel 0 rest).bind fun (e, rest) =>
            (mark? ")" rest).map fun rest => (.aggregate f e, rest)
        | _, rest => (name? (⟨.word w, start, stop⟩ :: rest)).map fun (n, rest) => (.column n, rest)
    | ts => (name? ts).map fun (n, rest) => (.column n, rest)

end

/-- An expression at the front. -/
def read? (ts : List Lexeme) : Option (Expr × List Lexeme) :=
  level? ((levels + 2) * (ts.length + 1)) 0 ts

end Expr

end TrieFeed.Sql
