import TrieFeed.Script.Datum
/-!
# Between scripts and their host

Values become data without loss but for two things: numbers of a script have one kind, and a map's
`__proto__` field says what the record inherits. Data become values down to a fixed depth, so that
data which hold themselves are refused and not followed.
-/
namespace TrieFeed.Script

/-- Whole numbers up to this size are doubles in a script, and wide beyond it. -/
def exactLimit : Nat := Nat.pow 2 53

/-- Whether a number fits in a word of sixty-four bits, signed or not. -/
def fitsWord (n : Int) : Bool := Numeral.fitsSigned 64 n || (0 ≤ n && n < Nat.pow 2 64)

/-- A wide number from its digits, which the script reads. -/
def wideOfDigits (n : Int) : Datum := ((Datum.wideOfText? (toString n)).map .wide).getD .undefined

/-- Small numbers and those that doubles hold are one kind of number in a script. -/
def datumOfInt (n : Int) : Datum :=
  if n.natAbs ≤ exactLimit then .ofInt n
  else if fitsWord n then .wide n
  else wideOfDigits n

def datumOfDecimal (d : Decimal) : Datum :=
  if d.isWhole ∧ Numeral.fitsSigned 64 d.trunc then datumOfInt d.trunc else .number d.toBinary64

/-- The record of fields set one after the other. -/
def recordOf (fields : List (String × Datum)) : Datum :=
  .record (fields.filter (·.1 ≠ "__proto__")) (match Fields.get? "__proto__" fields with
    | some (.record inherited hidden) => inherited ++ hidden
    | _ => [])

mutual

def datumOf : Value → Datum
  | .null => .null
  | .bool b => .bool b
  | .int n => datumOfInt n
  | .float x => .number x
  | .decimal d => datumOfDecimal d
  | .text s => .text s
  | .bytes b => .bytes b
  | .list items => .list (dataOf items)
  | .map fields => recordOf (fieldsOf fields)

def dataOf : List Value → List Datum
  | [] => []
  | v :: rest => datumOf v :: dataOf rest

def fieldsOf : List (String × Value) → List (String × Datum)
  | [] => []
  | (name, v) :: rest => (name, datumOf v) :: fieldsOf rest

end

/-- Why data have no value. -/
inductive CrossingFault where
  | tooDeep
  | tooWide (n : Int)
  | noValue (kind : String)
deriving DecidableEq

def maxDepth : Nat := 128

def CrossingFault.message : CrossingFault → String
  | tooDeep => s!"value nested deeper than {maxDepth} levels (cyclic structure?)"
  | tooWide n => s!"BigInt {n} exceeds 128 bits"
  | noValue kind => s!"javascript {kind} values cannot cross into the host"

/-- What a host sees of data `δ`: a value, or parts to look at next, or nothing that it knows. -/
inductive View (δ : Type) where
  | value (v : Value)
  | list (items : List δ)
  | map (fields : List (String × δ))
  | fault (f : CrossingFault)

/-- The value of data through a view, at most so many levels deep. -/
def valueThrough {δ : Type} (view : δ → View δ) : Nat → δ → Except CrossingFault Value
  | 0, _ => .error .tooDeep
  | levels + 1, d =>
    match view d with
    | .value v => .ok v
    | .fault f => .error f
    | .list items => (items.mapM (valueThrough view levels)).map .list
    | .map fields =>
      (fields.mapM fun (f : String × δ) =>
        (valueThrough view levels f.2).map fun v => (f.1, v)).map .map

/-- The value of a number; whole ones inside a word are whole numbers. -/
def valueOfNumber (x : Binary64) : Value :=
  match x.integral? with
  | some n => if n.natAbs < Nat.pow 2 63 then .int n else .float x
  | none => .float x

def Datum.view : Datum → View Datum
  | .undefined | .null | .gap => .value .null
  | .bool b => .value (.bool b)
  | .number x => .value (valueOfNumber x)
  | .wide n =>
    -- A wide number leaves the script in digits too.
    match Numeral.signedWord? 128 (toString n).toList with
    | some m => .value (.int m)
    | none => .fault (.tooWide n)
  | .text s => .value (.text s)
  | .bytes b | .buffer b => .value (.bytes b)
  | .list items => .list items
  | .function | .newable => .fault (.noValue "Constructor")
  | .symbol => .fault (.noValue "Symbol")
  | .settled _ | .failed _ | .pending => .fault (.noValue "Promise")
  | d => .map d.fields

def valueOf (d : Datum) : Except CrossingFault Value := valueThrough Datum.view (maxDepth + 1) d

end TrieFeed.Script
