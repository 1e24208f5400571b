import TrieFeed.Codec.Item
/-!
# Binary form of data items

Lengths, tags and numbers take the shortest header that holds them, and whole numbers past
sixty-four bits are tagged byte strings without leading zeros, so every item has one binary form.
-/
namespace TrieFeed.Cbor

/-- The big-endian digits of `n` in base 256, least significant last and `width` of them. -/
def bigEndian : Nat → Nat → Bytes
  | 0, _ => []
  | width + 1, n => bigEndian width (n / 256) ++ [.ofNat (n % 256)]

/-- The initial byte and the argument in the least width that holds it. -/
def header (major n : Nat) : Bytes :=
  if n < 24 then [.ofNat (32 * major + n)]
  else if n < Nat.pow 2 8 then .ofNat (32 * major + 24) :: bigEndian 1 n
  else if n < Nat.pow 2 16 then .ofNat (32 * major + 25) :: bigEndian 2 n
  else if n < Nat.pow 2 32 then .ofNat (32 * major + 26) :: bigEndian 4 n
  else .ofNat (32 * major + 27) :: bigEndian 8 n

/-- The number of base-256 digits of `n`. -/
def width (n : Nat) : Nat := if n = 0 then 0 else n.log2 / 8 + 1

/-- The magnitude of a large number, without leading zeros. -/
def magnitude (n : Nat) : Bytes := bigEndian (width n) n

def byteString (b : Bytes) : Bytes := header 2 b.length ++ b

def tag (n : Nat) : Bytes := header 6 n

/-- A magnitude in a header of its own, or past sixty-four bits as a tagged byte string. -/
def number (major bignumTag n : Nat) : Bytes :=
  if n < Nat.pow 2 64 then header major n else tag bignumTag ++ byteString (magnitude n)

/-- A negative number stores its distance below minus one. -/
def int : Int → Bytes
  | .ofNat n => number 0 2 n
  | .negSucc n => number 1 3 n

mutual

def encode : Item → Bytes
  | .null => [0xf6]
  | .bool b => [if b then 0xf5 else 0xf4]
  | .int n => int n
  | .bytes b => byteString b
  | .text s =>
    let b := Utf8.encode s
    header 3 b.length ++ b
  | .list items => header 4 items.length ++ encodeItems items
  | .map entries => header 5 entries.length ++ encodeEntries entries

def encodeItems : List Item → Bytes
  | [] => []
  | item :: rest => encode item ++ encodeItems rest

def encodeEntries : List (Item × Item) → Bytes
  | [] => []
  | (key, value) :: rest => encode key ++ encode value ++ encodeEntries rest

end

def encodeList (items : List Item) : Bytes := encode (.list items)

def encodeMap (entries : List (Item × Item)) : Bytes := encode (.map entries)

/-- The tag of a constructor alternative: the first seven have tags of their own. -/
def constrTag (alternative : Nat) : Nat :=
  if alternative ≤ 6 then 121 + alternative else 1280 + (alternative - 7)

def encodeConstr (alternative : Nat) (fields : List Item) : Bytes :=
  tag (constrTag alternative) ++ encodeList fields

end TrieFeed.Cbor
