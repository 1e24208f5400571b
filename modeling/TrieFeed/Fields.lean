/-!
# Named fields in order

Fields keep the order in which their names were first given, and a name given again keeps its place
and takes the new value.
-/
namespace TrieFeed

/-- Values under names, in order of first insertion. -/
abbrev Fields (α : Type) := List (String × α)

namespace Fields

variable {α : Type}

def get? (name : String) : Fields α → Option α
  | [] => none
  | (key, value) :: rest => if key = name then some value else get? name rest

def has (name : String) (fields : Fields α) : Bool := (get? name fields).isSome

/-- Replaces the value in place, or appends the field. -/
def insert (name : String) (value : α) : Fields α → Fields α
  | [] => [(name, value)]
  | (key, old) :: rest =>
    if key = name then (key, value) :: rest else (key, old) :: insert name value rest

def erase (name : String) (fields : Fields α) : Fields α := fields.filter (·.1 ≠ name)

/-- Later fields override earlier ones of the same name. -/
def merge (fields others : Fields α) : Fields α :=
  others.foldl (fun acc (name, value) => insert name value acc) fields

def ofPairs (pairs : List (String × α)) : Fields α := merge [] pairs

def names (fields : Fields α) : List String := fields.map (·.1)

/-- Orders fields by name, code point by code point. -/
def sorted (fields : Fields α) : Fields α := fields.mergeSort fun a b => !(b.1 < a.1)

theorem get?_insert_self (name : String) (value : α) (fields : Fields α) :
    get? name (insert name value fields) = some value := by
  induction fields with
  | nil => simp [insert, get?]
  | cons field rest ih =>
    by_cases h : field.1 = name <;> simp [insert, get?, h, ih]

theorem get?_insert_of_ne {name other : String} (h : name ≠ other) (value : α)
    (fields : Fields α) : get? other (insert name value fields) = get? other fields := by
  induction fields with
  | nil => simp [insert, get?, h]
  | cons field rest ih =>
    by_cases h' : field.1 = name
    · simp [insert, get?, h', h]
    · by_cases h'' : field.1 = other <;> simp [insert, get?, h', h'', h.symm, ih]

end Fields

end TrieFeed
