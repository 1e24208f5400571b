import TrieFeed.Proofs.Number.Numeral
import TrieFeed.Proofs.Number.Rounding
import TrieFeed.Proofs.Script.Order
import TrieFeed.Proofs.Script.Unfolding
import TrieFeed.Proofs.Value.Parts
/-!
# What comes back from a script

A value that a script hands back untouched returns as the echo of the value: whole doubles are whole
numbers, and maps stand in the order of scripts. Nothing else changes, down to the greatest depth.
-/
namespace TrieFeed

namespace Value

def echoedDouble (x : Binary64) : Value := (x.whole?.map .int).getD (.float x)

mutual

/-- What comes back of a value. -/
def echoed : Value → Value
  | .float x => echoedDouble x
  | .decimal d =>
    if d.isWhole ∧ Numeral.fitsSigned 64 d.trunc then .int d.trunc else echoedDouble d.toBinary64
  | .list items => .list (echoedItems items)
  | .map fields =>
    .map (Script.Datum.listed ((echoedFields fields).filter (·.1 ≠ "__proto__")))
  | .null => .null
  | .bool b => .bool b
  | .int n => .int n
  | .text s => .text s
  | .bytes b => .bytes b

def echoedItems : List Value → List Value
  | [] => []
  | v :: rest => echoed v :: echoedItems rest

def echoedFields : List (String × Value) → List (String × Value)
  | [] => []
  | (name, v) :: rest => (name, echoed v) :: echoedFields rest

end

theorem echoedItems_eq (items : List Value) : echoedItems items = items.map echoed := by
  induction items with
  | nil => rfl
  | cons v rest ih => rw [echoedItems, ih, List.map_cons]

theorem echoedFields_eq (fields : Record) :
    echoedFields fields = fields.map fun f => (f.1, f.2.echoed) := by
  induction fields with
  | nil => rfl
  | cons f rest ih => rw [echoedFields, ih, List.map_cons]

theorem echoed_list (items : List Value) : echoed (.list items) = .list (items.map echoed) := by
  rw [echoed, echoedItems_eq]

theorem echoed_map (fields : Record) :
    echoed (.map fields) = .map ((Script.Datum.listed (fields.filter (·.1 ≠ "__proto__"))).map
      fun f => (f.1, f.2.echoed)) := by
  rw [echoed, echoedFields_eq, List.filter_map, Script.Datum.listed_map]
  rfl

/-- Whole numbers have one hundred and twenty-eight bits. -/
def Sized : Value → Prop
  | .int n => Numeral.fitsSigned 128 n
  | _ => True

theorem Every.sized {P : Value → Prop} {v : Value} (h : v.Every P)
    (hp : ∀ n, P (.int n) → Numeral.fitsSigned 128 n) : v.Every Sized := by
  refine h.imp fun w hw => ?_
  cases w with
  | int n => exact hp n hw
  | _ => trivial

/-- Values other than decimals and maps. -/
def Plain : Value → Prop
  | .int n => Numeral.fitsSigned 128 n
  | .decimal _ | .map _ => False
  | _ => True

/-- Whether a value comes back as it is, if its parts do. -/
def Stable : Value → Prop
  | .float x => x.whole? = none
  | .decimal _ => False
  | .map fields =>
    "__proto__" ∉ Fields.names fields ∧ Script.Datum.InOrder (Fields.names fields)
  | _ => True

end Value

namespace Script

/-! ## Numbers -/

theorem valueOfNumber_eq (x : Binary64) : valueOfNumber x = Value.echoedDouble x := by
  rw [valueOfNumber, Value.echoedDouble, Binary64.whole?_eq]
  cases x.integral? with
  | none => rfl
  | some n =>
    rw [Option.filter_some]
    by_cases h : n.natAbs < Nat.pow 2 63
    · simp [h]
    · simp [h]

/-- A number in decimal digits is not marked with another base. -/
theorem markedDigits?_eq_none {cs : List Char} (h : ∀ c ∈ cs, c = '-' ∨ Numeral.isDigit c) :
    Datum.markedDigits? cs = none := by
  rw [Datum.markedDigits?.eq_def]
  split
  · rename_i mark digits
    have hm := h mark (by simp)
    have hne (c : Char) (hc : ¬(c = '-' ∨ Numeral.isDigit c)) : mark ≠ c := by
      rintro rfl
      exact hc hm
    simp [hne 'x' (by decide), hne 'X' (by decide), hne 'o' (by decide), hne 'O' (by decide),
      hne 'b' (by decide), hne 'B' (by decide)]
  · rfl

theorem wideOfText?_toString (n : Int) : Datum.wideOfText? (toString n) = some n := by
  have hm := markedDigits?_eq_none fun c hc => Numeral.isDigit_of_mem_toString (n := n) hc
  have hi := Numeral.integer?_toString n
  simp only [Datum.wideOfText?, Text.trim_toString, hm]
  generalize (toString n).toList = cs at hi
  cases cs with
  | nil => cases hi
  | cons c cs => exact hi

/-- Whichever of its forms a whole number takes in a script, the host reads the same number. -/
theorem view_datumOfInt {n : Int} (h : Numeral.fitsSigned 128 n) :
    (datumOfInt n).view = .value (.int n) := by
  have hw : (Datum.wide n).view = .value (.int n) := by
    rw [Datum.view, Numeral.signedWord?_toString h]
  rw [datumOfInt]
  by_cases he : n.natAbs ≤ exactLimit
  · -- Doubles hold the number exactly, and it is far from the bound of sixty-four bits.
    have hi : (Binary64.ofInt n).integral? = some n :=
      Binary64.integral?_eq_some_iff.mpr (Binary64.toRat?_ofInt he)
    have hb : n.natAbs < Nat.pow 2 63 := he.trans_lt (by decide)
    rw [if_pos he, Datum.ofInt, Datum.view, valueOfNumber, hi]
    simp only [hb, if_true]
  · rw [if_neg he]
    by_cases hf : fitsWord n
    · rw [if_pos hf, hw]
    · rw [if_neg hf, wideOfDigits, wideOfText?_toString, Option.map_some, Option.getD_some, hw]

theorem view_datumOfDecimal (d : Decimal) :
    (datumOfDecimal d).view = .value (Value.echoed (.decimal d)) := by
  rw [datumOfDecimal, Value.echoed]
  by_cases h : d.isWhole ∧ Numeral.fitsSigned 64 d.trunc
  · have hs : Numeral.fitsSigned 128 d.trunc := by
      have hf := h.2
      simp only [Numeral.fitsSigned, Nat.pow_eq, Nat.reduceSub, Nat.reducePow, Bool.and_eq_true,
        decide_eq_true_eq] at hf ⊢
      omega
    rw [if_pos h, if_pos h, view_datumOfInt hs]
  · rw [if_neg h, if_neg h, Datum.view, valueOfNumber_eq]

/-! ## Parts -/

theorem dataOf_eq (items : List Value) : dataOf items = items.map datumOf := by
  induction items with
  | nil => rfl
  | cons v rest ih => rw [dataOf, ih, List.map_cons]

theorem fieldsOf_eq (fields : Record) : fieldsOf fields = fields.map fun f => (f.1, datumOf f.2) := by
  induction fields with
  | nil => rfl
  | cons f rest ih => rw [fieldsOf, ih, List.map_cons]

theorem view_record (fields hidden : Fields Datum) :
    (Datum.record fields hidden).view = .map (Datum.listed fields) := rfl

theorem view_map (fields : Record) :
    (datumOf (.map fields)).view =
      .map ((Datum.listed (fields.filter (·.1 ≠ "__proto__"))).map fun f => (f.1, datumOf f.2)) := by
  rw [datumOf, recordOf, view_record, fieldsOf_eq, List.filter_map, Datum.listed_map]
  rfl

section

variable {δ : Type} {view : δ → View δ} {d : δ} {levels : Nat}

variable {α : Type} {parts : List α} {datum : α → δ} {value : α → Value}

theorem valueThrough_list (h : view d = .list (parts.map datum))
    (hp : ∀ p ∈ parts, valueThrough view levels (datum p) = .ok (value p)) :
    valueThrough view (levels + 1) d = .ok (.list (parts.map value)) := by
  rw [valueThrough_of_list h, List.mapM_map]
  exact congrArg (Except.map Value.list) (Outcome.mapM_eq_ok hp)

theorem valueThrough_map {name : α → String}
    (h : view d = .map (parts.map fun p => (name p, datum p)))
    (hp : ∀ p ∈ parts, valueThrough view levels (datum p) = .ok (value p)) :
    valueThrough view (levels + 1) d = .ok (.map (parts.map fun p => (name p, value p))) := by
  have hf (p : α) (hm : p ∈ parts) :
      fieldThrough view levels (name p, datum p) = .ok (name p, value p) := by
    rw [fieldThrough, hp p hm]
    rfl
  rw [valueThrough_of_map h, List.mapM_map]
  exact congrArg (Except.map Value.map) (Outcome.mapM_eq_ok hf)

end

/-- Values nested less deep than the host reads come back as their echo. -/
theorem valueThrough_datumOf {v : Value} {levels : Nat} (hs : v.Every Value.Sized)
    (hw : v.Within levels) :
    valueThrough Datum.view (levels + 1) (datumOf v) = .ok v.echoed := by
  induction v using Value.partsInduction generalizing levels with
  | null => exact valueThrough_of_value rfl
  | bool b => exact valueThrough_of_value rfl
  | int n => exact valueThrough_of_value (view_datumOfInt hs.self)
  | float x =>
    apply valueThrough_of_value
    rw [datumOf, Datum.view, valueOfNumber_eq, Value.echoed]
  | decimal d => exact valueThrough_of_value (view_datumOfDecimal d)
  | text s => exact valueThrough_of_value rfl
  | bytes b => exact valueThrough_of_value rfl
  | list items ih =>
    cases levels with
    | zero => exact hw.elim
    | succ levels =>
      rw [Value.echoed_list]
      apply valueThrough_list
      · rw [datumOf, dataOf_eq, Datum.view]
      · intro v hv
        exact ih v hv (hs.item hv) (hw v hv)
  | map fields ih =>
    cases levels with
    | zero => exact hw.elim
    | succ levels =>
      rw [Value.echoed_map]
      apply valueThrough_map (view_map fields)
      intro f hf
      have hm : f ∈ fields := List.mem_of_mem_filter ((Datum.listed_perm _).mem_iff.mp hf)
      exact ih f hm (hs.field hm) (hw f hm)

/-! ## Values that come back as they are -/

theorem echoedDouble_eq_self_iff {x : Binary64} :
    Value.echoedDouble x = .float x ↔ x.whole? = none := by
  rw [Value.echoedDouble]
  cases x.whole? with
  | none => exact iff_of_true rfl rfl
  | some n => exact iff_of_false nofun nofun

theorem echoed_decimal_ne (d : Decimal) : Value.echoed (.decimal d) ≠ .decimal d := by
  rw [Value.echoed]
  split
  · exact nofun
  · rw [Value.echoedDouble]
    cases d.toBinary64.whole? with
    | none => exact nofun
    | some n => exact nofun

/-- A field that is lost leaves the record shorter, and one that is moved leaves it out of order. -/
theorem echoed_map_eq_self_iff {fields : Record} :
    Value.echoed (.map fields) = .map fields ↔
      ("__proto__" ∉ Fields.names fields ∧ Datum.InOrder (Fields.names fields)) ∧
        ∀ f ∈ fields, f.2.echoed = f.2 := by
  rw [Value.echoed_map, Value.map.injEq]
  constructor
  · intro h
    have hl : (fields.filter (·.1 ≠ "__proto__")).length = fields.length := by
      rw [← (Datum.listed_perm _).length_eq, ← List.length_map (f := fun f => (f.1, f.2.echoed)), h]
    have hk : fields.filter (·.1 ≠ "__proto__") = fields :=
      List.filter_eq_self.mpr (List.length_filter_eq_length_iff.mp hl)
    rw [hk] at h
    have ho : Datum.InOrder (Fields.names fields) := by
      rw [← h, Fields.names_map]
      exact Datum.inOrder_listed fields
    rw [Datum.listed_eq_self_iff.mpr ho] at h
    exact ⟨⟨Fields.erase_eq_self_iff.mp hk, ho⟩, Fields.map_values_eq_self_iff.mp h⟩
  · rintro ⟨⟨hp, ho⟩, he⟩
    have hk : fields.filter (·.1 ≠ "__proto__") = fields := Fields.erase_eq_self_iff.mpr hp
    rw [hk, Datum.listed_eq_self_iff.mpr ho]
    exact Fields.map_values_eq_self_iff.mpr he

theorem echoed_eq_self_iff {v : Value} : v.echoed = v ↔ v.Every Value.Stable := by
  induction v using Value.partsInduction with
  | null => exact iff_of_true rfl ((Value.every_leaf rfl rfl).mpr trivial)
  | bool b => exact iff_of_true rfl ((Value.every_leaf rfl rfl).mpr trivial)
  | int n => exact iff_of_true rfl ((Value.every_leaf rfl rfl).mpr trivial)
  | float x =>
    rw [Value.every_leaf rfl rfl, Value.echoed]
    exact echoedDouble_eq_self_iff
  | decimal d => exact iff_of_false (echoed_decimal_ne d) fun h => h.self
  | text s => exact iff_of_true rfl ((Value.every_leaf rfl rfl).mpr trivial)
  | bytes b => exact iff_of_true rfl ((Value.every_leaf rfl rfl).mpr trivial)
  | list items ih =>
    have hs : Value.Stable (.list items) := trivial
    rw [Value.every_list, and_iff_right hs, Value.echoed_list, Value.list.injEq,
      Value.map_items_eq_self_iff]
    exact forall₂_congr ih
  | map fields ih =>
    rw [Value.every_map, echoed_map_eq_self_iff, Value.Stable]
    exact and_congr_right fun _ => forall₂_congr ih

/-- Scalars, bytes and lists come back with every number, digit and item, and only whole doubles of
less than sixty-four bits come back as whole numbers. -/
theorem plain_crossing {v : Value} (hp : v.Every Value.Plain) (hw : v.Within maxDepth) :
    valueOf (datumOf v) = .ok v.echoed ∧ (v.echoed = v ↔ v.Every Value.Stable) := by
  have hs : v.Every Value.Sized := hp.sized fun _ h => h
  exact ⟨valueThrough_datumOf hs hw, echoed_eq_self_iff⟩

/-- Numbers on both sides of every bound at which a number changes its form. -/
def borderNumbers : List Int :=
  [Nat.pow 2 31, Nat.pow 2 53, Nat.pow 2 53 + 1, -Nat.pow 2 63, Nat.pow 2 64 - 1, Nat.pow 2 64,
    Nat.pow 2 127 - 1, -Nat.pow 2 127]

/-- A zero with a sign, the last whole double of less than sixty-four bits, and the next one. -/
def borderDoubles : List Binary64 := [.zero true, ⟨0x43dfffffffffffff⟩, ⟨0x43e0000000000000⟩]

def borderValues (doubles : List Value) : Value :=
  .list [.list (borderNumbers.map .int), .list doubles, .bytes [0, 255], .text "é", .null]

theorem plain_crossing_borders :
    (borderValues (borderDoubles.map .float)).Every Value.Plain ∧
      (borderValues (borderDoubles.map .float)).Within maxDepth ∧
      valueOf (datumOf (borderValues (borderDoubles.map .float))) =
        .ok (borderValues [.int 0, .int (Nat.pow 2 63 - 1024), .float ⟨0x43e0000000000000⟩]) := by
  have hp : (borderValues (borderDoubles.map .float)).Every Value.Plain := by
    have hn : ∀ n ∈ borderNumbers, Numeral.fitsSigned 128 n := by decide
    have hi : (Value.list (borderNumbers.map .int)).Every Value.Plain := by
      refine Value.every_list.mpr ⟨trivial, List.forall_mem_map.mpr ?_⟩
      intro n hm
      exact (Value.every_leaf rfl rfl).mpr (hn n hm)
    have hd : (Value.list (borderDoubles.map .float)).Every Value.Plain := by
      refine Value.every_list.mpr ⟨trivial, List.forall_mem_map.mpr ?_⟩
      intro x hm
      exact (Value.every_leaf rfl rfl).mpr trivial
    rw [borderValues, Value.every_list]
    simp only [List.forall_mem_cons]
    exact ⟨trivial, hi, hd, (Value.every_leaf rfl rfl).mpr trivial,
      (Value.every_leaf rfl rfl).mpr trivial, (Value.every_leaf rfl rfl).mpr trivial, nofun⟩
  have hw : (borderValues (borderDoubles.map .float)).Within maxDepth := by
    simp [borderValues, maxDepth, Value.Within]
  refine ⟨hp, hw, ?_⟩
  have hz : (Binary64.zero true).whole? = some 0 := by
    rw [Binary64.whole?_eq]
    decide +kernel
  have hl : (⟨0x43dfffffffffffff⟩ : Binary64).whole? = some ((Nat.pow 2 63 : Nat) - 1024 : Int) := by
    rw [Binary64.whole?_eq]
    decide +kernel
  have hu : (⟨0x43e0000000000000⟩ : Binary64).whole? = none := by
    rw [Binary64.whole?_eq]
    decide +kernel
  rw [(plain_crossing hp hw).1]
  simp [borderValues, borderDoubles, Value.echoed, Value.echoedItems_eq, Value.echoedDouble, hz, hl,
    hu]

end Script

end TrieFeed
