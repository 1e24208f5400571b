import TrieFeed.Codec.Hex
import TrieFeed.Json.Printer
import TrieFeed.Json.Reader
import TrieFeed.Time.Calendar
import TrieFeed.Value.Json
/-!
# Cells of a database server

How a server writes the cells of its types in bytes, the highest byte first. A cell that its type
does not explain has no value.
-/
namespace TrieFeed.Sql.Wire

def ofBigEndian (b : Bytes) : Nat := b.foldl (fun n byte => n * 256 + byte.toNat) 0

/-- A whole number in two's complement, of as many bytes as there are. -/
def signed (b : Bytes) : Int :=
  let n := ofBigEndian b
  if 2 * n < Nat.pow 256 b.length then n else (n : Int) - (Nat.pow 256 b.length : Nat)

/-- A whole number of one to eight bytes that fits in so many bits. -/
def int? (bits : Nat) (b : Bytes) : Option Int :=
  if b.isEmpty ∨ 8 < b.length then none
  else if Numeral.fitsSigned bits (signed b) then some (signed b) else none

def single? (b : Bytes) : Option Binary64 :=
  if b.length = 4 then some (.ofSingleBits (ofBigEndian b)) else none

def double? (b : Bytes) : Option Binary64 :=
  if b.length = 8 then some (.ofBits (ofBigEndian b)) else none

/-- Words of sixteen bits. -/
def words : Bytes → List Nat
  | a :: b :: rest => (a.toNat * 256 + b.toNat) :: words rest
  | _ => []

def signedWord (n : Nat) : Int := if n < 32768 then n else (n : Int) - 65536

/-- The place value of a digit to the base of ten thousand. Places beyond the range of decimals have
none. -/
def digitAt? (digit : Nat) (place : Int) : Option Decimal :=
  if place < -7 ∨ 7 < place then none
  else
    let d : Decimal :=
      if 0 ≤ place then ⟨(digit * Nat.pow 10000 place.toNat : Nat), 0⟩
      else ⟨digit, 4 * place.natAbs⟩
    if d.coefficient.natAbs < Decimal.limit then some d else none

/-- The exact sum of two decimals, which may be out of range. -/
def sum (a b : Decimal) : Decimal :=
  let scale := max a.scale b.scale
  let raised (d : Decimal) : Int := d.coefficient * (Nat.pow 10 (scale - d.scale) : Nat)
  ⟨raised a + raised b, scale⟩

def magnitude? (weight : Int) (digits : List Nat) : Option Decimal := do
  let terms ← (digits.mapIdx fun k digit => digitAt? digit (weight - k)).mapM id
  (terms.foldl sum ⟨0, 0⟩).fitted?

/-- A number of any precision: the count of its digits, the place of the first, the sign and the
scale come before the digits. -/
def numeric? (b : Bytes) : Option Decimal :=
  match words b with
  | count :: weight :: sign :: scale :: digits =>
    if digits.length < count ∨ 32768 ≤ scale then none
    else if sign ≠ 0 ∧ sign ≠ 0x4000 then none
    else if count = 0 then some ⟨0, 0⟩
    else (magnitude? (signedWord weight) (digits.take count)).map fun d =>
      (Decimal.mk (if sign = 0 then d.coefficient else -d.coefficient) d.scale).rescale scale
  | _ => none

/-- The day from which servers count. -/
def firstDay : Int := 10957

def date? (b : Bytes) : Option Time.Date :=
  if b.length = 4 then some (Time.dateOf (firstDay + signed b)) else none

/-- As many digits of a second as there are, in groups of three. -/
def fractionText (micros : Nat) : String :=
  if micros = 0 then ""
  else if micros % 1000 = 0 then "." ++ Time.padded 3 (micros / 1000)
  else "." ++ Time.padded 6 micros

def timestamp? (between : String) (b : Bytes) : Option String :=
  if b.length = 8 then
    let seconds := firstDay * Time.daySeconds + (signed b).fdiv 1000000
    let micros := ((signed b).fmod 1000000).toNat
    some ((Time.dateOf (Time.dayOf seconds)).text ++ between ++ (Time.clockOf seconds).text
      ++ fractionText micros)
  else none

def uuid? (b : Bytes) : Option String :=
  if b.length = 16 then
    let part (start size : Nat) : String := Hex.encode ((b.drop start).take size)
    some ("-".intercalate [part 0 4, part 4 2, part 6 2, part 8 2, part 10 6])
  else none

def document? (b : Bytes) : Option Value :=
  ((Utf8.decode? b).bind Json.read?).map .ofJson

/-- The value of a cell by the name of its type; other types have none. -/
def value? (kind : String) (b : Bytes) : Option Value :=
  match kind with
  | "BOOL" => b.head?.map fun byte => .bool (byte ≠ 0)
  | "INT2" => (int? 16 b).map .int
  | "INT4" => (int? 32 b).map .int
  | "INT8" => (int? 64 b).map .int
  | "FLOAT4" => (single? b).map .float
  | "FLOAT8" => (double? b).map .float
  | "NUMERIC" => (numeric? b).map .decimal
  | "BYTEA" => some (.bytes b)
  | "TIMESTAMPTZ" => (timestamp? "T" b).map fun s => .text (s ++ "+00:00")
  | "TIMESTAMP" => (timestamp? " " b).map .text
  | "DATE" => (date? b).map fun d => .text d.text
  | "UUID" => (uuid? b).map .text
  | "JSON" => document? b
  | "JSONB" => match b with
    | 1 :: rest => document? rest
    | _ => none
  | "TEXT" | "VARCHAR" | "NAME" | "BPCHAR" | "UNKNOWN" => (Utf8.decode? b).map .text
  | _ => none

def cell (kind : String) : Option Bytes → Value
  | none => .null
  | some b => (value? kind b).getD .null

/-- A parameter as it is sent: the name of its type, and null or a value of that type. -/
structure Sent where
  kind : String
  value : Value

def send : Value → Sent
  | .null => ⟨"TEXT", .null⟩
  | .bool b => ⟨"BOOL", .bool b⟩
  | .int n => if Numeral.fitsSigned 64 n then ⟨"INT8", .int n⟩ else ⟨"TEXT", .text (toString n)⟩
  | .float x => ⟨"FLOAT8", .float x⟩
  | .decimal d => ⟨"NUMERIC", .decimal (if d.coefficient = 0 then ⟨0, 0⟩ else d)⟩
  | .text s => ⟨"TEXT", .text s⟩
  | .bytes b => ⟨"BYTEA", .bytes b⟩
  | v => ⟨"TEXT", .text v.toJson.compact⟩

end TrieFeed.Sql.Wire
