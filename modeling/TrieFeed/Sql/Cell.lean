import TrieFeed.Json.Printer
import TrieFeed.Value.Json
/-!
# Cells

What a table stores: null, whole numbers of a word, doubles, texts and byte strings. Values become
cells without loss where cells have their kind, and texts where they have not.
-/
namespace TrieFeed.Sql

inductive Cell where
  | null
  | int (n : Int)
  | real (x : Binary64)
  | text (s : String)
  | blob (b : Bytes)
deriving DecidableEq, Inhabited

namespace Cell

/-- A double; one that is no number is null. -/
def ofDouble (x : Binary64) : Cell := if x.isNaN then .null else .real x

def ofValue : Value → Cell
  | .null => .null
  | .bool b => .int (if b then 1 else 0)
  | .int n => if Numeral.fitsSigned 64 n then .int n else .text (toString n)
  | .float x => ofDouble x
  | .decimal d => ofDouble d.toBinary64
  | .text s => .text s
  | .bytes b => .blob b
  | v => .text v.toJson.compact

def toValue : Cell → Value
  | .null => .null
  | .int n => .int n
  | .real x => .float x
  | .text s => .text s
  | .blob b => .bytes b

/-- Order of a whole number and a double, both taken exactly. -/
def compareMixed (n : Int) (x : Binary64) : Ordering :=
  match x.trunc? with
  | none => if x.isNegative then .gt else .lt
  | some t =>
    if n ≠ t then compare n t
    else if x.lt (.ofInt t) then .gt
    else if (Binary64.ofInt t).lt x then .lt
    else .eq

def compareDoubles (x y : Binary64) : Ordering :=
  if x.lt y then .lt else if y.lt x then .gt else .eq

def compareBytes : Bytes → Bytes → Ordering
  | [], [] => .eq
  | [], _ => .lt
  | _, [] => .gt
  | a :: as, b :: bs => (compare a.toNat b.toNat).then (compareBytes as bs)

/-- The place of a kind in the order of cells. -/
def rank : Cell → Nat
  | .null => 0
  | .int _ | .real _ => 1
  | .text _ => 2
  | .blob _ => 3

/-- The order of cells: null, numbers whatever their kind, texts, byte strings. -/
def order : Cell → Cell → Ordering
  | .int m, .int n => compare m n
  | .int n, .real x => compareMixed n x
  | .real x, .int n => (compareMixed n x).swap
  | .real x, .real y => compareDoubles x y
  | .text s, .text t => compare s t
  | .blob a, .blob b => compareBytes a b
  | a, b => compare a.rank b.rank

def ofBool (b : Bool) : Cell := .int (if b then 1 else 0)

/-- The double of a number. -/
def double? : Cell → Option Binary64
  | .int n => some (.ofInt n)
  | .real x => some x
  | _ => none

end Cell

end TrieFeed.Sql
