import TrieFeed.Codec.Error
import TrieFeed.Codec.Item
import TrieFeed.Number.Shortest
import TrieFeed.Value.Basic
/-!
# Values as data items

The one classification of dynamic values as data items. Doubles and decimals are cut toward zero;
doubles that are not finite, or whose whole part needs more than 128 bits, have no item.
-/
namespace TrieFeed.Value

/-- Why a number has no data item. -/
inductive Fault where
  | notFinite (x : Binary64)
  | tooLarge (x : Binary64)
  | outOfRange (d : Decimal)
deriving DecidableEq

def Fault.message : Fault → String
  | .notFinite x => "non-finite number " ++ Shortest.Layout.display.write x
  | .tooLarge x => "number " ++ Shortest.Layout.display.write x ++ " exceeds 128 bits"
  | .outOfRange d => "decimal " ++ d.toString ++ " out of range"

def Fault.toError (fault : Fault) : CodecError := .unsupportedValue fault.message

/-- The first double past the numbers of 128 bits, of which the greatest is not a double. -/
def limit : Binary64 := .ofScientific false 170141183460469231731687303715884105728 0

/-- The whole part of a double. -/
def wholePart (x : Binary64) : Except Fault Int :=
  if !x.isFinite then .error (.notFinite x)
  else
    let whole := x.truncated
    -- Both are finite, so that not being below the limit is to have reached it.
    if !whole.lt limit || whole.lt limit.neg then .error (.tooLarge x)
    else .ok (whole.toSigned 128)

/-- The whole part of a decimal. -/
def wholePartOf (d : Decimal) : Except Fault Int :=
  match d.toSigned? 128 with
  | some n => .ok n
  | none => .error (.outOfRange d)

mutual

/-- The item of a value; the first fault in reading order is reported. -/
def toItem : Value → Except Fault Item
  | .null => .ok .null
  | .bool b => .ok (.bool b)
  | .int n => .ok (.int n)
  | .float x => (wholePart x).map .int
  | .decimal d => (wholePartOf d).map .int
  | .text s => .ok (.text s)
  | .bytes b => .ok (.bytes b)
  | .list items => (toItems items).map .list
  | .map fields => (toEntries fields).map .map

def toItems : List Value → Except Fault (List Item)
  | [] => .ok []
  | value :: rest => do
    let item ← toItem value
    return item :: (← toItems rest)

def toEntries : List (String × Value) → Except Fault (List (Item × Item))
  | [] => .ok []
  | (name, value) :: rest => do
    let item ← toItem value
    return (.text name, item) :: (← toEntries rest)

end

end TrieFeed.Value
