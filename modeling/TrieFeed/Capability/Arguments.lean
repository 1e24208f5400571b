import TrieFeed.Plugin.Error
import TrieFeed.Value.Item
/-!
# Arguments

The arguments of one capability call, by position. Null stands for an absent argument.
-/
namespace TrieFeed

structure Arguments where
  capability : String
  method : String
  values : List Value

namespace Arguments

def error (args : Arguments) (reason : String) : PluginError :=
  .capability args.capability s!"{args.method}: {reason}"

def get? (args : Arguments) (i : Nat) : Option Value :=
  args.values[i]?.filter (!·.isNull)

def value (args : Arguments) (i : Nat) : Except PluginError Value :=
  match args.get? i with
  | some v => .ok v
  | none => .error (args.error s!"missing argument {i + 1}")

def text (args : Arguments) (i : Nat) : Except PluginError String := do
  match ← args.value i with
  | .text s => return s
  | v => throw (args.error s!"argument {i + 1} must be a string, got {v.typeName}")

/-- Bytes, or a list of whole numbers. -/
def bytes (args : Arguments) (i : Nat) : Except PluginError Bytes := do
  let v ← args.value i
  match v.toBytes? with
  | some b => return b
  | none => throw (args.error s!"argument {i + 1} must be bytes, got {v.typeName}")

def list (args : Arguments) (i : Nat) : Except PluginError (List Value) := do
  match ← args.value i with
  | .list items => return items
  | v => throw (args.error s!"argument {i + 1} must be an array, got {v.typeName}")

/-- The item of a value, as capabilities report its faults. -/
def itemOf (v : Value) : Except PluginError Item :=
  v.toItem.mapError fun fault => .ofCodec fault.toError

/-- A number, cut to a whole one. -/
def int (args : Arguments) (i : Nat) : Except PluginError Int := do
  match ← itemOf (← args.value i) with
  | .int n => return n
  | _ => throw (args.error s!"argument {i + 1} must be a number")

/-- A constructor number of plutus data. -/
def alternative (args : Arguments) (i : Nat) : Except PluginError Nat := do
  let n ← args.int i
  if 0 ≤ n ∧ n < Nat.pow 2 32 then return n.toNat
  else throw (args.error s!"constructor alternative {n} out of range")

/-- A list of items; an absent one is empty. -/
def items (args : Arguments) (i : Nat) : Except PluginError (List Item) :=
  match args.get? i with
  | none => .ok []
  | some _ => do (← args.list i).mapM itemOf

end Arguments

end TrieFeed
