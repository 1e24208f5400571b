import TrieFeed.Value.Basic
/-!
# TOML documents

A document is a table of fields. How a table came about decides what may still be added to it: a
header opens a table once, dotted keys extend only tables of dotted keys, and a table written in a
line is complete.
-/
namespace TrieFeed

/-- How a table came about. -/
inductive Toml.Origin where
  /-- By a header of its own. -/
  | header
  /-- By the header of a table below it. -/
  | implied
  /-- By a dotted key. -/
  | dotted
  /-- In a line, between braces. -/
  | line
deriving DecidableEq, Inhabited

inductive Toml where
  | text (s : String)
  | int (n : Int)
  | float (x : Binary64)
  | bool (b : Bool)
  /-- A date, a time of day or both, in normal form. -/
  | moment (text : String)
  | list (items : List Toml)
  | table (origin : Toml.Origin) (fields : List (String × Toml))
  /-- Tables that headers between double brackets have opened. -/
  | tables (items : List Toml)
deriving Inhabited

namespace Toml

/-- Changes the table at a path, and makes tables that are missing on the way. Of several tables
under one name the last is meant. -/
def within (onDottedKey : Bool) (change : Origin → Fields Toml → Option (Fields Toml)) :
    List String → Origin → Fields Toml → Option (Fields Toml)
  | [], origin, fields => change origin fields
  | name :: rest, _, fields =>
    match Fields.get? name fields with
    | none =>
      let origin : Origin := if onDottedKey then .dotted else .implied
      (within onDottedKey change rest origin []).map fun inner =>
        Fields.insert name (.table origin inner) fields
    | some (.table .line _) => none
    | some (.table origin inner) =>
      if onDottedKey && origin == .header then none
      else (within onDottedKey change rest origin inner).map fun inner =>
        Fields.insert name (.table origin inner) fields
    | some (.tables items) =>
      match items.getLast? with
      | some (.table origin inner) =>
        (within onDottedKey change rest origin inner).map fun inner =>
          Fields.insert name (.tables (items.dropLast ++ [.table origin inner])) fields
      | _ => none
    | some _ => none

/-- Sets a field that is not there yet. Dotted keys end in tables of their own, others do not. -/
def setField (isDotted : Bool) (name : String) (value : Toml) (origin : Origin)
    (fields : Fields Toml) : Option (Fields Toml) :=
  if (origin == .dotted) == isDotted && !Fields.has name fields then
    some (Fields.insert name value fields)
  else none

/-- Sets the field of a key in a table. -/
def put (key : List String) (value : Toml) (origin : Origin) (fields : Fields Toml) :
    Option (Fields Toml) :=
  match key.getLast? with
  | none => none
  | some name =>
    let above := key.dropLast
    within true (setField (!above.isEmpty) name value) above origin fields

/-- Opens the table of a header, which no header has opened before. -/
def openTable (path : List String) (root : Fields Toml) : Option (Fields Toml) :=
  match path.getLast? with
  | none => none
  | some name =>
    within false (fun _ fields =>
      match Fields.get? name fields with
      | none => some (Fields.insert name (.table .header []) fields)
      | some (.table .implied inner) => some (Fields.insert name (.table .header inner) fields)
      | some _ => none) path.dropLast .header root

/-- Opens one more table of a header between double brackets. -/
def openElement (path : List String) (root : Fields Toml) : Option (Fields Toml) :=
  match path.getLast? with
  | none => none
  | some name =>
    within false (fun _ fields =>
      match Fields.get? name fields with
      | none => some (Fields.insert name (.tables [.table .header []]) fields)
      | some (.tables items) =>
        some (Fields.insert name (.tables (items ++ [.table .header []])) fields)
      | some _ => none) path.dropLast .header root

/-- The table of a list of fields in a line. -/
def ofLine? (fields : List (List String × Toml)) : Option Toml :=
  (fields.foldlM (fun table (key, value) => put key value .line table) []).map (.table .line)

mutual

/-- The document as a value, with the fields of tables in order of names. -/
def toValue : Toml → Value
  | .text s => .text s
  | .int n => .int n
  | .float x => .float x
  | .bool b => .bool b
  | .moment s => .text s
  | .list items => .list (itemsToValue items)
  | .table _ fields => .map (Fields.sorted (fieldsToValue fields))
  | .tables items => .list (itemsToValue items)

def itemsToValue : List Toml → List Value
  | [] => []
  | item :: rest => toValue item :: itemsToValue rest

def fieldsToValue : List (String × Toml) → List (String × Value)
  | [] => []
  | (name, value) :: rest => (name, toValue value) :: fieldsToValue rest

end

end Toml

end TrieFeed
