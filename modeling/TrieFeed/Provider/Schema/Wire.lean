import TrieFeed.Json.Shape
import TrieFeed.Provider.Schema
/-!
# Schemas as documents

The wire form of a schema leaves out what is absent. Reading it back asks for every field that
writing never leaves out.
-/
namespace TrieFeed.Schema

def FieldKind.wireName : FieldKind → String
  | .string => "STRING"
  | .integer => "INTEGER"
  | .number => "NUMBER"
  | .boolean => "BOOLEAN"
  | .select => "SELECT"
  | .password => "PASSWORD"

def FieldKind.choices : List (String × FieldKind) :=
  [.string, .integer, .number, .boolean, .select, .password].map fun kind => (kind.wireName, kind)

/-- A field of a document, where it is there. -/
def present {α : Type} (name : String) (write : α → Json) : Option α → List (String × Json)
  | some a => [(name, write a)]
  | none => []

def Choice.toJson (choice : Choice) : Json :=
  .object [("value", .text choice.value), ("label", .text choice.label)]

/-- A bound that is not finite has no number in a document. -/
def boundToJson (x : Binary64) : Json := if x.isFinite then .float x else .null

def Bounds.toJson (bounds : Bounds) : Json :=
  .object (present "min" boundToJson bounds.min ++ present "max" boundToJson bounds.max
    ++ present "pattern" .text bounds.pattern
    ++ present "minLength" (fun n => .int n) bounds.minLength
    ++ present "maxLength" (fun n => .int n) bounds.maxLength)

def Field.toJson (field : Field) : Json :=
  .object ([("name", .text field.name), ("label", .text field.label),
      ("type", .text field.kind.wireName), ("required", .bool field.required)]
    ++ present "description" .text field.description
    ++ present "placeholder" .text field.placeholder
    ++ present "defaultValue" .text field.defaultValue
    ++ present "validation" Bounds.toJson field.bounds
    ++ if field.choices.isEmpty then [] else [("options", .list (field.choices.map Choice.toJson))])

def toJson (schema : Schema) : Json :=
  .object [("fields", .list (schema.fields.map Field.toJson))]

def Choice.ofJson? (json : Json) : Option Choice :=
  match json.record? [.plain "value", .plain "label"] with
  | some [value, label] => do
    return ⟨← Json.required? Json.text? value, ← Json.required? Json.text? label⟩
  | _ => none

def Bounds.ofJson? (json : Json) : Option Bounds :=
  match json.record? (["min", "max", "pattern", "minLength", "maxLength"].map .plain) with
  | some [min, max, pattern, minLength, maxLength] => do
    return {
      min := ← Json.absentable? Json.number? min
      max := ← Json.absentable? Json.number? max
      pattern := ← Json.absentable? Json.text? pattern
      minLength := ← Json.absentable? (Json.word? 32) minLength
      maxLength := ← Json.absentable? (Json.word? 32) maxLength }
  | _ => none

def Field.slots : List Json.Slot :=
  ["name", "label", "type", "required", "description", "placeholder", "defaultValue",
    "validation"].map .plain ++ [.optional "options"]

def Field.ofJson? (json : Json) : Option Field :=
  match json.record? Field.slots with
  | some [name, label, kind, required, description, placeholder, defaultValue, bounds, choices] =>
    do
    return {
      name := ← Json.required? Json.text? name
      label := ← Json.required? Json.text? label
      kind := ← Json.required? (Json.choice? FieldKind.choices) kind
      required := ← Json.required? Json.bool? required
      description := ← Json.absentable? Json.text? description
      placeholder := ← Json.absentable? Json.text? placeholder
      defaultValue := ← Json.absentable? Json.text? defaultValue
      bounds := ← Json.absentable? Bounds.ofJson? bounds
      choices := ← Json.defaulted? [] (Json.listOf? Choice.ofJson?) choices }
  | _ => none

def ofJson? (json : Json) : Option Schema :=
  match json.record? [.plain "fields"] with
  | some [fields] => (Json.required? (Json.listOf? Field.ofJson?) fields).map Schema.mk
  | _ => none

end TrieFeed.Schema
