import TrieFeed.Codec.Hex
import TrieFeed.Json.Basic
import TrieFeed.Value.Basic
/-!
# Values as documents

Bytes become hexadecimal text, whole numbers outside the range of documents become text, and doubles
that are not finite become null. Reading a document back loses nothing that a document holds.
-/
namespace TrieFeed.Value

def floatToJson (x : Binary64) : Json := if x.isFinite then .float x else .null

mutual

def toJson : Value → Json
  | .null => .null
  | .bool b => .bool b
  | .int n => if Json.holdsInt n then .int n else .text (toString n)
  | .float x => floatToJson x
  | .decimal d => floatToJson d.toBinary64
  | .text s => .text s
  | .bytes b => .text (Hex.encode b)
  | .list items => .list (itemsToJson items)
  | .map fields => .object (fieldsToJson fields)

def itemsToJson : List Value → List Json
  | [] => []
  | item :: rest => toJson item :: itemsToJson rest

def fieldsToJson : List (String × Value) → List (String × Json)
  | [] => []
  | (name, value) :: rest => (name, toJson value) :: fieldsToJson rest

end

mutual

def ofJson : Json → Value
  | .null => .null
  | .bool b => .bool b
  | .int n => .int n
  | .float x => .float x
  | .text s => .text s
  | .list items => .list (itemsOfJson items)
  | .object fields => .map (fieldsOfJson fields)

def itemsOfJson : List Json → List Value
  | [] => []
  | item :: rest => ofJson item :: itemsOfJson rest

def fieldsOfJson : List (String × Json) → List (String × Value)
  | [] => []
  | (name, value) :: rest => (name, ofJson value) :: fieldsOfJson rest

end

end TrieFeed.Value
