import TrieFeed.Codec.Cbor
import TrieFeed.Codec.Error
import TrieFeed.Text.Quoted
/-!
# Plutus data

The data of on-chain scripts: numbers, bytes, lists, maps and numbered constructors. There are no
null values, texts or booleans, and none is invented for them.
-/
namespace TrieFeed

inductive PlutusData where
  | constr (alternative : Nat) (fields : List PlutusData)
  | map (entries : List (PlutusData × PlutusData))
  | list (items : List PlutusData)
  | int (n : Int)
  | bytes (b : Bytes)
deriving Inhabited

namespace PlutusData

/-- Why an item is not Plutus data. -/
inductive Fault where
  | null
  | text (s : String)
  | bool
deriving DecidableEq

def Fault.message : Fault → String
  | .null => "null values are not supported in plutus data"
  | .text s =>
    let shown := Text.quoted s
    s!"text {shown} is not plutus data; encode it to bytes first"
  | .bool => "booleans are not plutus data; use constr(0|1, [])"

def Fault.toError (fault : Fault) : CodecError := .invalidPlutusData fault.message

mutual

/-- The data an item stands for; the first fault in reading order is reported. -/
def ofItem : Item → Except Fault PlutusData
  | .int n => .ok (.int n)
  | .bytes b => .ok (.bytes b)
  | .list items => (ofItems items).map .list
  | .map entries => (ofEntries entries).map .map
  | .null => .error .null
  | .text s => .error (.text s)
  | .bool _ => .error .bool

def ofItems : List Item → Except Fault (List PlutusData)
  | [] => .ok []
  | item :: rest => do
    let data ← ofItem item
    return data :: (← ofItems rest)

def ofEntries : List (Item × Item) → Except Fault (List (PlutusData × PlutusData))
  | [] => .ok []
  | (key, value) :: rest => do
    let k ← ofItem key
    let v ← ofItem value
    return (k, v) :: (← ofEntries rest)

end

def ofConstr (alternative : Nat) (fields : List Item) : Except Fault PlutusData :=
  (ofItems fields).map (.constr alternative)

mutual

/-- The binary form, with the headers of data items and a tag before each constructor. -/
def toCbor : PlutusData → Bytes
  | .constr alternative fields =>
    Cbor.tag (Cbor.constrTag alternative) ++ Cbor.header 4 fields.length ++ listToCbor fields
  | .map entries => Cbor.header 5 entries.length ++ entriesToCbor entries
  | .list items => Cbor.header 4 items.length ++ listToCbor items
  | .int n => Cbor.int n
  | .bytes b => Cbor.byteString b

def listToCbor : List PlutusData → Bytes
  | [] => []
  | item :: rest => toCbor item ++ listToCbor rest

def entriesToCbor : List (PlutusData × PlutusData) → Bytes
  | [] => []
  | (key, value) :: rest => toCbor key ++ toCbor value ++ entriesToCbor rest

end

end PlutusData

end TrieFeed
