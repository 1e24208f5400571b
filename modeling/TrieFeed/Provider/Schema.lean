import TrieFeed.Number.Shortest
import TrieFeed.Value.Basic
/-!
# Configuration schemas

The form of a provider's settings: named fields with a kind, and optionally choices, bounds and a
default. Scripts describe schemas as loose values, and whatever they leave out takes a default.
-/
namespace TrieFeed

namespace Schema

inductive FieldKind where
  | string
  | integer
  | number
  | boolean
  | select
  | password
deriving DecidableEq

/-- The kind that a name means in any case; unknown names mean text. -/
def FieldKind.ofName (name : String) : FieldKind :=
  match Text.asciiLower (Text.trimmed name) with
  | "integer" => .integer
  | "number" => .number
  | "boolean" => .boolean
  | "select" => .select
  | "password" => .password
  | _ => .string

/-- One choice of a field. -/
structure Choice where
  value : String
  label : String
deriving DecidableEq

/-- Bounds on the value of a field. -/
structure Bounds where
  min : Option Binary64
  max : Option Binary64
  pattern : Option String
  minLength : Option Nat
  maxLength : Option Nat
deriving DecidableEq

structure Field where
  name : String
  label : String
  kind : FieldKind
  required : Bool
  description : Option String
  placeholder : Option String
  defaultValue : Option String
  bounds : Option Bounds
  choices : List Choice
deriving DecidableEq

/-- The text of a plain value. -/
def textOf? : Value → Option String
  | .text s => some s
  | .int n => some (toString n)
  | .float x => some (Shortest.Layout.display.write x)
  | .decimal d => some d.toString
  | .bool b => some (if b then "true" else "false")
  | _ => none

/-- The number of a plain value. -/
def numberOf? : Value → Option Binary64
  | .int n => some (.ofInt n)
  | .float x => some x
  | .text s => Numeral.double? (Text.trim s.toList)
  | _ => none

/-- A length: fractions are cut, and what is no number or out of range is clamped. -/
def lengthOf (x : Binary64) : Nat :=
  let most := Nat.pow 2 32 - 1
  match x.shape with
  | .notANumber => 0
  | .infinite negative => if negative then 0 else most
  | .finite negative m e => if negative then 0 else min (Binary64.truncMagnitude m e) most

def fieldText? (name : String) (fields : Record) : Option String :=
  (Fields.get? name fields).bind textOf?

def fieldNumber? (name : String) (fields : Record) : Option Binary64 :=
  (Fields.get? name fields).bind numberOf?

/-- A choice needs a value, which is also its label where it has none. -/
def Choice.ofValue? (value : Value) : Option Choice :=
  match (value.get? "value").bind textOf? with
  | some v => some ⟨v, ((value.get? "label").bind textOf?).getD v⟩
  | none => none

def Bounds.ofRecord (fields : Record) : Bounds where
  min := fieldNumber? "min" fields
  max := fieldNumber? "max" fields
  pattern := fieldText? "pattern" fields
  minLength := (fieldNumber? "minLength" fields).map lengthOf
  maxLength := (fieldNumber? "maxLength" fields).map lengthOf

/-- A field needs a name, which is also its label where it has none. -/
def Field.ofRecord? (fields : Record) : Option Field :=
  match fieldText? "name" fields with
  | none => none
  | some name => some {
      name
      label := (fieldText? "label" fields).getD name
      kind := ((fieldText? "type" fields).map FieldKind.ofName).getD .string
      required := ((Fields.get? "required" fields).bind Value.toBool?).getD false
      description := fieldText? "description" fields
      placeholder := fieldText? "placeholder" fields
      defaultValue := fieldText? "defaultValue" fields
      bounds := ((Fields.get? "validation" fields).bind Value.map?).map Bounds.ofRecord
      choices :=
        (((Fields.get? "options" fields).bind Value.list?).getD []).filterMap Choice.ofValue? }

def Field.ofValue? (value : Value) : Option Field := value.map?.bind Field.ofRecord?

end Schema

/-- The fields of a form, in order. -/
structure Schema where
  fields : List Schema.Field
deriving DecidableEq

namespace Schema

def empty : Schema := ⟨[]⟩

/-- A list of fields, or a map that has one; anything else is an empty form. -/
def ofValue (value : Value) : Schema :=
  let items := match value with
    | .list items => items
    | .map fields => ((Fields.get? "fields" fields).bind Value.list?).getD []
    | _ => []
  ⟨items.filterMap Field.ofValue?⟩

def hasRequired (schema : Schema) : Bool := schema.fields.any (·.required)

/-- The names of the fields that hold secrets. -/
def secrets (schema : Schema) : List String :=
  (schema.fields.filter (·.kind = .password)).map (·.name)

/-- The defaults of the fields, as settings. -/
def defaults (schema : Schema) : Record :=
  Fields.ofPairs (schema.fields.filterMap fun field =>
    field.defaultValue.map fun text => (field.name, .text text))

end Schema

end TrieFeed
