import Mathlib.Algebra.Ring.Int.Defs
import TrieFeed.Proofs.Fields
import TrieFeed.Proofs.Value.Parts
import TrieFeed.Value.Json
/-!
# Values and documents

A document read as a value and written again is the document it was, and a value written and read
again is the value it was if it holds nothing that documents have to write as something else. Both
keep every name in its place, and a number stays of its kind.
-/
namespace TrieFeed

namespace Json

/-- Induction over a document and its parts. -/
@[elab_as_elim]
theorem partsInduction {motive : Json → Prop} (null : motive .null) (bool : ∀ b, motive (.bool b))
    (int : ∀ n, motive (.int n)) (float : ∀ x, motive (.float x)) (text : ∀ s, motive (.text s))
    (list : ∀ items, (∀ j ∈ items, motive j) → motive (.list items))
    (object : ∀ fields, (∀ f ∈ fields, motive f.2) → motive (.object fields)) (j : Json) :
    motive j :=
  @Json.rec motive (fun items => ∀ j ∈ items, motive j) (fun fields => ∀ f ∈ fields, motive f.2)
    (fun f => motive f.2) null bool int float text list object
    (fun _ h => nomatch h)
    (fun _ _ hj hrest _ h => by
      rcases List.mem_cons.mp h with rfl | h
      · exact hj
      · exact hrest _ h)
    (fun _ h => nomatch h)
    (fun _ _ hf hrest _ h => by
      rcases List.mem_cons.mp h with rfl | h
      · exact hf
      · exact hrest _ h)
    (fun _ _ hj => hj) j

/-- Documents whose numbers are whole ones of sixty-four bits, signed or not, and finite doubles. -/
inductive Sound : Json → Prop
  | null : Sound .null
  | bool (b) : Sound (.bool b)
  | int {n} : -2 ^ 63 ≤ n → n < 2 ^ 64 → Sound (.int n)
  | float {x} : x.isFinite → Sound (.float x)
  | text (s) : Sound (.text s)
  | list {items} : (∀ j ∈ items, Sound j) → Sound (.list items)
  | object {fields} : (∀ f ∈ fields, Sound f.2) → Sound (.object fields)

theorem holdsInt_iff {n : Int} : holdsInt n ↔ -2 ^ 63 ≤ n ∧ n < 2 ^ 64 := by
  simp [holdsInt]

end Json

namespace Value

/-! ## Parts -/

theorem itemsToJson_eq (items : List Value) : itemsToJson items = items.map toJson := by
  induction items with
  | nil => rfl
  | cons v rest ih =>
    rw [List.map_cons, ← ih]
    rfl

theorem fieldsToJson_eq (fields : Record) :
    fieldsToJson fields = fields.map fun f => (f.1, f.2.toJson) := by
  induction fields with
  | nil => rfl
  | cons f rest ih =>
    rw [List.map_cons, ← ih]
    rfl

theorem itemsOfJson_eq (items : List Json) : itemsOfJson items = items.map ofJson := by
  induction items with
  | nil => rfl
  | cons j rest ih =>
    rw [List.map_cons, ← ih]
    rfl

theorem fieldsOfJson_eq (fields : Fields Json) :
    fieldsOfJson fields = fields.map fun f => (f.1, ofJson f.2) := by
  induction fields with
  | nil => rfl
  | cons f rest ih =>
    rw [List.map_cons, ← ih]
    rfl

theorem toJson_list (items : List Value) : toJson (.list items) = .list (items.map toJson) :=
  congrArg Json.list (itemsToJson_eq items)

theorem toJson_map (fields : Record) :
    toJson (.map fields) = .object (fields.map fun f => (f.1, f.2.toJson)) :=
  congrArg Json.object (fieldsToJson_eq fields)

theorem ofJson_list (items : List Json) : ofJson (.list items) = .list (items.map ofJson) :=
  congrArg Value.list (itemsOfJson_eq items)

theorem ofJson_object (fields : Fields Json) :
    ofJson (.object fields) = .map (fields.map fun f => (f.1, ofJson f.2)) :=
  congrArg Value.map (fieldsOfJson_eq fields)

/-! ## Numbers -/

theorem toJson_int_iff {n : Int} : toJson (.int n) = .int n ↔ -2 ^ 63 ≤ n ∧ n < 2 ^ 64 := by
  change (if Json.holdsInt n then Json.int n else Json.text (toString n)) = .int n ↔ _
  rw [← Json.holdsInt_iff]
  by_cases h : Json.holdsInt n
  · exact iff_of_true (if_pos h) h
  · rw [if_neg h]
    exact iff_of_false nofun h

theorem floatToJson_iff {x : Binary64} : floatToJson x = .float x ↔ x.isFinite := by
  rw [floatToJson]
  by_cases h : x.isFinite
  · exact iff_of_true (if_pos h) h
  · rw [if_neg h]
    exact iff_of_false nofun h

/-! ## Documents read and written -/

theorem toJson_ofJson_iff {j : Json} : (ofJson j).toJson = j ↔ j.Sound := by
  induction j using Json.partsInduction with
  | null => exact iff_of_true rfl .null
  | bool b => exact iff_of_true rfl (.bool b)
  | int n =>
    exact toJson_int_iff.trans ⟨fun h => .int h.1 h.2, fun | .int hl hu => ⟨hl, hu⟩⟩
  | float x =>
    exact floatToJson_iff.trans ⟨.float, fun | .float h => h⟩
  | text s => exact iff_of_true rfl (.text s)
  | list items ih =>
    rw [ofJson_list, toJson_list, List.map_map, Json.list.injEq, map_items_eq_self_iff]
    constructor
    · intro h
      exact .list fun j hj => (ih j hj).mp (h j hj)
    · rintro (_ | _ | _ | _ | _ | h) j hj
      exact (ih j hj).mpr (h j hj)
  | object fields ih =>
    rw [ofJson_object, toJson_map, List.map_map, Json.object.injEq]
    refine (Fields.map_values_eq_self_iff (g := fun j => (ofJson j).toJson)).trans
      ⟨fun h => .object fun f hf => (ih f hf).mp (h f hf), ?_⟩
    rintro (_ | _ | _ | _ | _ | _ | h) f hf
    exact (ih f hf).mpr (h f hf)

/-! ## Values written and read -/

/-- Values that documents hold as they are, if their parts are such. -/
def Documented : Value → Prop
  | .int n => -2 ^ 63 ≤ n ∧ n < 2 ^ 64
  | .float x => x.isFinite
  | .decimal _ | .bytes _ => False
  | _ => True

section

variable {j : Json}

/-- A whole number comes of nothing but a whole number, and a double of nothing but a double. -/
theorem ofJson_eq_int_iff {n : Int} : ofJson j = .int n ↔ j = .int n := by
  constructor
  · intro h
    cases j <;> cases h
    rfl
  · rintro rfl
    rfl

theorem ofJson_eq_float_iff {x : Binary64} : ofJson j = .float x ↔ j = .float x := by
  constructor
  · intro h
    cases j <;> cases h
    rfl
  · rintro rfl
    rfl

theorem ofJson_ne_decimal (d : Decimal) : ofJson j ≠ .decimal d := by
  cases j <;> nofun

theorem ofJson_ne_bytes (b : Bytes) : ofJson j ≠ .bytes b := by
  cases j <;> nofun

end

theorem ofJson_toJson_iff {v : Value} : ofJson v.toJson = v ↔ v.Every Documented := by
  induction v using partsInduction with
  | null => exact iff_of_true rfl ((every_leaf rfl rfl).mpr trivial)
  | bool b => exact iff_of_true rfl ((every_leaf rfl rfl).mpr trivial)
  | int n => rw [every_leaf rfl rfl, ofJson_eq_int_iff, toJson_int_iff, Documented]
  | float x =>
    rw [every_leaf rfl rfl, ofJson_eq_float_iff]
    exact floatToJson_iff
  | decimal d => exact iff_of_false (ofJson_ne_decimal d) fun h => h.self
  | text s => exact iff_of_true rfl ((every_leaf rfl rfl).mpr trivial)
  | bytes b => exact iff_of_false (ofJson_ne_bytes b) fun h => h.self
  | list items ih =>
    rw [every_list, toJson_list, ofJson_list, List.map_map, list.injEq, map_items_eq_self_iff]
    exact (forall₂_congr ih).trans (and_iff_right trivial).symm
  | map fields ih =>
    rw [every_map, toJson_map, ofJson_object, List.map_map, map.injEq]
    exact (Fields.map_values_eq_self_iff (g := fun v => ofJson v.toJson)).trans
      ((forall₂_congr ih).trans (and_iff_right trivial).symm)

/-- A document comes back from a value, with every name in its place, exactly if its numbers are
whole ones of sixty-four bits, signed or not, and finite doubles. A value comes back from a document
exactly if its numbers are such too and it holds no decimals and no bytes. -/
theorem documents_come_back :
    (∀ j : Json, (ofJson j).toJson = j ↔ j.Sound) ∧
    ∀ v : Value, ofJson v.toJson = v ↔ v.Every Documented :=
  ⟨fun _ => toJson_ofJson_iff, fun _ => ofJson_toJson_iff⟩

end Value

end TrieFeed
