import TrieFeed.Json.Reader
/-!
# Reading documents of a known shape

A record is read from an object, whose unknown names are ignored and whose known names may stand
once, or from a list of its fields in declared order, which may lack only fields with a default.
-/
namespace TrieFeed.Json

/-- A field of a record: its names, the first of which is its own, and whether it has a default. -/
structure Slot where
  names : List String
  hasDefault : Bool

/-- A field under one name, without a default. -/
def Slot.plain (name : String) : Slot := ⟨[name], false⟩

/-- A field under one name, with a default. -/
def Slot.optional (name : String) : Slot := ⟨[name], true⟩

/-- What the fields of an object give to one slot; two of them are refused. -/
def Slot.pick? (slot : Slot) (fields : List (String × Json)) : Option (Option Json) :=
  match fields.filter fun field => slot.names.contains field.1 with
  | [] => some none
  | [field] => some (some field.2)
  | _ => none

/-- Fields in declared order. -/
def inOrder? : List Slot → List Json → Option (List (Option Json))
  | [], [] => some []
  | [], _ :: _ => none
  | slot :: slots, [] =>
    if slot.hasDefault then (inOrder? slots []).map (none :: ·) else none
  | _ :: slots, item :: items => (inOrder? slots items).map (some item :: ·)

/-- The field values of a record by slot; absent fields of an object are left to the reader. -/
def record? (slots : List Slot) : Json → Option (List (Option Json))
  | .object fields => slots.mapM fun slot => slot.pick? fields
  | .list items => inOrder? slots items
  | _ => none

def text? : Json → Option String
  | .text s => some s
  | _ => none

def bool? : Json → Option Bool
  | .bool b => some b
  | _ => none

/-- A natural number that fits in so many bits. -/
def word? (bits : Nat) : Json → Option Nat
  | .int (.ofNat n) => if n < Nat.pow 2 bits then some n else none
  | _ => none

/-- Any number. -/
def number? : Json → Option Binary64
  | .int n => some (.ofInt n)
  | .float x => some x
  | _ => none

/-- Null counts as absent. -/
def nullable? {α : Type} (read : Json → Option α) : Json → Option (Option α)
  | .null => some none
  | json => (read json).map some

def listOf? {α : Type} (read : Json → Option α) : Json → Option (List α)
  | .list items => items.mapM read
  | _ => none

/-- A field that must be there. -/
def required? {α : Type} (read : Json → Option α) (field : Option Json) : Option α :=
  field.bind read

/-- A field whose absence and whose null mean the same. -/
def absentable? {α : Type} (read : Json → Option α) : Option Json → Option (Option α)
  | none => some none
  | some json => nullable? read json

/-- A field that takes a default where it is absent. -/
def defaulted? {α : Type} (default : α) (read : Json → Option α) : Option Json → Option α
  | none => some default
  | some json => read json

/-- A choice without content: its name, or an object of its name and null. -/
def choice? {α : Type} (choices : List (String × α)) : Json → Option α
  | .text s => Fields.get? s choices
  | .object [(name, .null)] => Fields.get? name choices
  | _ => none

end TrieFeed.Json
