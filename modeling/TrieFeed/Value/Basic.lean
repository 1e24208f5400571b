import TrieFeed.Fields
import TrieFeed.Number.Word
import TrieFeed.Text.Blank
import TrieFeed.Text.Utf8
/-!
# Values

The dynamic values that scripts, capabilities and providers exchange. Doubles and decimals keep what
they are, so that a record crosses without loss.
-/
namespace TrieFeed

inductive Value where
  | null
  | bool (b : Bool)
  | int (n : Int)
  | float (x : Binary64)
  | decimal (d : Decimal)
  | text (s : String)
  | bytes (b : Bytes)
  | list (items : List Value)
  | map (fields : List (String × Value))
deriving Inhabited

/-- What a provider fetches: named values in order. -/
abbrev Record := Fields Value

namespace Value

def isNull : Value → Bool
  | .null => true
  | _ => false

def typeName : Value → String
  | .null => "null"
  | .bool _ => "bool"
  | .int _ => "int"
  | .float _ => "float"
  | .decimal _ => "decimal"
  | .text _ => "text"
  | .bytes _ => "bytes"
  | .list _ => "list"
  | .map _ => "map"

def text? : Value → Option String
  | .text s => some s
  | _ => none

def bytes? : Value → Option Bytes
  | .bytes b => some b
  | _ => none

def list? : Value → Option (List Value)
  | .list items => some items
  | _ => none

def map? : Value → Option Record
  | .map fields => some fields
  | _ => none

def get? (name : String) : Value → Option Value
  | .map fields => Fields.get? name fields
  | _ => none

/-- The byte that a whole number leaves modulo 256. -/
def byteOf (n : Int) : UInt8 := .ofNat (n.emod 256).toNat

/-- Reads each item as a byte; only whole numbers are. -/
def itemBytes? : List Value → Option Bytes
  | [] => some []
  | .int n :: rest => (itemBytes? rest).map (byteOf n :: ·)
  | _ :: _ => none

/-- Bytes, or a list of whole numbers each taken modulo 256. -/
def toBytes? : Value → Option Bytes
  | .bytes b => some b
  | .list items => itemBytes? items
  | _ => none

def boolOfText? (s : String) : Option Bool :=
  match Text.trimmed s with
  | "true" => some true
  | "false" => some false
  | _ => none

/-- Booleans, and the two words for them. -/
def toBool? : Value → Option Bool
  | .bool b => some b
  | .text s => boolOfText? s
  | _ => none

/-- A number of sixty-four bits. Fractions are cut; a double outside the range is clamped to it,
while whole numbers, decimals and texts outside it are refused. -/
def toInt64? : Value → Option Int
  | .int n => if Numeral.fitsSigned 64 n then some n else none
  | .float x => if x.isFinite then some (x.truncated.toSigned 64) else none
  | .decimal d => d.toSigned? 64
  | .text s => Numeral.signedWord? 64 (Text.trim s.toList)
  | _ => none

/-- One element of a byte-like map. -/
def elementByte? : Value → Option UInt8
  | .int n => some (byteOf n)
  | .float x => if x.isFinite then some (byteOf (x.truncated.toSigned 64)) else none
  | _ => none

/-- The bytes of a map from the indices below its `length`, which are all its other keys. -/
def byteLike? (fields : Record) : Option Bytes :=
  match (Fields.get? "length" fields).bind toInt64? with
  | some (.ofNat n) =>
    if fields.length = n + 1 then
      (List.range n).mapM fun i => (Fields.get? (toString i) fields).bind elementByte?
    else none
  | _ => none

mutual

/-- Turns byte-like maps into bytes, at every level. -/
def detectBytes : Value → Value
  | .map fields =>
    match byteLike? fields with
    | some b => .bytes b
    | none => .map (detectFields fields)
  | .list items => .list (detectItems items)
  | .null => .null
  | .bool b => .bool b
  | .int n => .int n
  | .float x => .float x
  | .decimal d => .decimal d
  | .text s => .text s
  | .bytes b => .bytes b

def detectItems : List Value → List Value
  | [] => []
  | item :: rest => detectBytes item :: detectItems rest

def detectFields : List (String × Value) → List (String × Value)
  | [] => []
  | (name, value) :: rest => (name, detectBytes value) :: detectFields rest

end

end Value

end TrieFeed
