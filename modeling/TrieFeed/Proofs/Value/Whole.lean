import TrieFeed.Proofs.Number.Truncation
import TrieFeed.Proofs.Outcome
import TrieFeed.Proofs.Value.Parts
import TrieFeed.Value.Item
/-!
# Whole parts of the numbers of a value

A value has an item exactly if the whole part of every double in it is a number of 128 bits, and the
item stands for the value with all fractions dropped. The short reading of a number as one of
sixty-four bits agrees with the item, but for doubles beyond those.
-/
namespace TrieFeed

namespace Numeral

variable {bits : Nat} {n : Int}

theorem fitsSigned_iff : fitsSigned bits n ↔ -2 ^ (bits - 1) ≤ n ∧ n < 2 ^ (bits - 1) := by
  simp [fitsSigned]

theorem clampSigned_eq (bits : Nat) (n : Int) :
    clampSigned bits n = max (-2 ^ (bits - 1)) (min (2 ^ (bits - 1) - 1) n) := by
  have hp : (Nat.pow 2 (bits - 1) : Int) = 2 ^ (bits - 1) := Int.natCast_pow 2 (bits - 1)
  rw [clampSigned, hp]

theorem clampSigned_of_fits (h : fitsSigned bits n) : clampSigned bits n = n := by
  rw [fitsSigned_iff] at h
  rw [clampSigned_eq, min_eq_right (by omega), max_eq_right h.1]

end Numeral

namespace Value

open Outcome (bind_eq_ok map_eq_ok exists_map_iff exists_error_iff)

/-! ## Whole parts -/

section

variable {x : Binary64} {d : Decimal} {n : Int}

theorem toRat?_limit : limit.toRat? = some ((2 ^ 127 : ℤ) : ℚ) := by
  have hs : limit.shape = .finite false (2 ^ 52) 75 := by decide +kernel
  rw [Binary64.toRat?, hs]
  norm_num

theorem toRat?_neg_limit : limit.neg.toRat? = some ((-2 ^ 127 : ℤ) : ℚ) := by
  have hs : limit.neg.shape = .finite true (2 ^ 52) 75 := by decide +kernel
  rw [Binary64.toRat?, hs]
  norm_num

/-- Comparing a double cut to a whole one with the limits, which are doubles, tells whether the
number that is left has 128 bits, and that number is taken as it is. -/
theorem wholePart_of_trunc? (h : x.trunc? = some n) :
    wholePart x = if Numeral.fitsSigned 128 n then .ok n else .error (.tooLarge x) := by
  obtain ⟨q, hq, -⟩ := Binary64.trunc?_eq_some_iff.mp h
  have hwhole := Binary64.toRat?_truncated h
  have hupper := Binary64.lt_iff hwhole toRat?_limit
  have hlower := Binary64.lt_iff hwhole toRat?_neg_limit
  rw [Int.cast_lt] at hupper hlower
  have hfits : Numeral.fitsSigned 128 n ↔ -2 ^ 127 ≤ n ∧ n < 2 ^ 127 := Numeral.fitsSigned_iff
  unfold wholePart
  dsimp only
  rw [Binary64.isFinite_eq, hq, Binary64.toSigned_eq 128 (Binary64.trunc?_truncated h)]
  by_cases hn : Numeral.fitsSigned 128 n
  · have hin := hfits.mp hn
    rw [if_pos hn, Numeral.clampSigned_of_fits hn, hupper.mpr hin.2,
      Bool.eq_false_iff.mpr (mt hlower.mp (not_lt.mpr hin.1))]
    rfl
  · have hout : (!x.truncated.lt limit || x.truncated.lt limit.neg) = true := by
      rw [Bool.or_eq_true, Bool.not_eq_true', Bool.eq_false_iff, Ne, hupper, hlower]
      rw [hfits] at hn
      omega
    rw [if_neg hn, hout]
    rfl

theorem wholePart_of_none (h : x.toRat? = none) : wholePart x = .error (.notFinite x) := by
  unfold wholePart
  dsimp only
  rw [Binary64.isFinite_eq, h]
  rfl

theorem wholePart_eq_ok : wholePart x = .ok n ↔
    ∃ q, x.toRat? = some q ∧ IsTrunc q n ∧ -2 ^ 127 ≤ n ∧ n < 2 ^ 127 := by
  cases hq : x.toRat? with
  | none =>
    rw [wholePart_of_none hq]
    exact iff_of_false nofun fun ⟨_, h, _⟩ => nomatch h
  | some q =>
    obtain ⟨m, hm⟩ := Binary64.exists_trunc hq
    obtain ⟨_, hq', hcut⟩ := Binary64.trunc?_eq_some_iff.mp hm
    cases hq.symm.trans hq'
    have hfits : Numeral.fitsSigned 128 m ↔ -2 ^ 127 ≤ m ∧ m < 2 ^ 127 := Numeral.fitsSigned_iff
    rw [wholePart_of_trunc? hm]
    split
    · rename_i hin
      constructor
      · intro h
        cases h
        exact ⟨q, rfl, hcut, hfits.mp hin⟩
      · rintro ⟨_, he, hn, -⟩
        cases he
        rw [hcut.unique hn]
    · rename_i hout
      refine iff_of_false nofun ?_
      rintro ⟨_, he, hn, hrange⟩
      cases he
      exact hout (hfits.mpr (hcut.unique hn ▸ hrange))

theorem wholePartOf_eq_ok : wholePartOf d = .ok n ↔
    IsTrunc d.toRat n ∧ -2 ^ 127 ≤ n ∧ n < 2 ^ 127 := by
  have hfits : Numeral.fitsSigned 128 d.trunc ↔ -2 ^ 127 ≤ d.trunc ∧ d.trunc < 2 ^ 127 :=
    Numeral.fitsSigned_iff
  rw [wholePartOf, Decimal.toSigned?, d.isTrunc_trunc.iff_eq]
  by_cases hin : Numeral.fitsSigned 128 d.trunc
  · rw [if_pos hin]
    constructor
    · intro h
      cases h
      exact ⟨rfl, hfits.mp hin⟩
    · rintro ⟨rfl, -⟩
      rfl
  · rw [if_neg hin]
    refine iff_of_false nofun ?_
    rintro ⟨rfl, hrange⟩
    exact hin (hfits.mpr hrange)

end

/-! ## Items -/

mutual

/-- The item that a value stands for: one of the same shape, with each number cut to a whole one. -/
inductive Denotes : Value → Item → Prop
  | null : Denotes .null .null
  | bool (b : Bool) : Denotes (.bool b) (.bool b)
  | int (n : Int) : Denotes (.int n) (.int n)
  | float {x q n} : x.toRat? = some q → IsTrunc q n → Denotes (.float x) (.int n)
  | decimal {d n} : IsTrunc d.toRat n → Denotes (.decimal d) (.int n)
  | text (s : String) : Denotes (.text s) (.text s)
  | bytes (b : Bytes) : Denotes (.bytes b) (.bytes b)
  | list {items all} : DenoteItems items all → Denotes (.list items) (.list all)
  | map {fields entries} : DenoteEntries fields entries → Denotes (.map fields) (.map entries)

/-- Items for values, one by one. -/
inductive DenoteItems : List Value → List Item → Prop
  | nil : DenoteItems [] []
  | cons {v item rest all} : Denotes v item → DenoteItems rest all →
      DenoteItems (v :: rest) (item :: all)

/-- Entries for fields, one by one and under the same names. -/
inductive DenoteEntries : List (String × Value) → List (Item × Item) → Prop
  | nil : DenoteEntries [] []
  | cons {name v item rest entries} : Denotes v item → DenoteEntries rest entries →
      DenoteEntries ((name, v) :: rest) ((.text name, item) :: entries)

end

mutual

/-- A value stands for one item. -/
theorem Denotes.unique {v : Value} {item other : Item} (h : Denotes v item)
    (ho : Denotes v other) : item = other := by
  cases h with
  | float hq hn =>
    cases ho with
    | float hq' hm =>
      cases hq.symm.trans hq'
      rw [hn.unique hm]
  | decimal hn =>
    cases ho with
    | decimal hm => rw [hn.unique hm]
  | list h =>
    cases ho with
    | list ho => rw [h.unique ho]
  | map h =>
    cases ho with
    | map ho => rw [h.unique ho]
  | _ =>
    cases ho
    rfl

theorem DenoteItems.unique {vs : List Value} {all others : List Item} (h : DenoteItems vs all)
    (ho : DenoteItems vs others) : all = others := by
  cases h with
  | nil =>
    cases ho
    rfl
  | cons h hrest =>
    cases ho with
    | cons ho horest => rw [h.unique ho, hrest.unique horest]

theorem DenoteEntries.unique {fields : List (String × Value)} {entries others : List (Item × Item)}
    (h : DenoteEntries fields entries) (ho : DenoteEntries fields others) : entries = others := by
  cases h with
  | nil =>
    cases ho
    rfl
  | cons h hrest =>
    cases ho with
    | cons ho horest => rw [h.unique ho, hrest.unique horest]

end

mutual

/-- The item of a value is one that the value stands for. -/
theorem denotes_of_toItem : ∀ {v : Value} {item : Item}, v.toItem = .ok item → v.Denotes item
  | .null, _, h => by
    rw [toItem] at h
    cases h
    exact .null
  | .bool b, _, h => by
    rw [toItem] at h
    cases h
    exact .bool b
  | .int n, _, h => by
    rw [toItem] at h
    cases h
    exact .int n
  | .float x, _, h => by
    rw [toItem] at h
    obtain ⟨n, hn, rfl⟩ := map_eq_ok.mp h
    obtain ⟨q, hq, hcut, -⟩ := wholePart_eq_ok.mp hn
    exact .float hq hcut
  | .decimal d, _, h => by
    rw [toItem] at h
    obtain ⟨n, hn, rfl⟩ := map_eq_ok.mp h
    exact .decimal (wholePartOf_eq_ok.mp hn).1
  | .text s, _, h => by
    rw [toItem] at h
    cases h
    exact .text s
  | .bytes b, _, h => by
    rw [toItem] at h
    cases h
    exact .bytes b
  | .list items, _, h => by
    rw [toItem] at h
    obtain ⟨all, ha, rfl⟩ := map_eq_ok.mp h
    exact .list (denoteItems_of_toItems ha)
  | .map fields, _, h => by
    rw [toItem] at h
    obtain ⟨entries, he, rfl⟩ := map_eq_ok.mp h
    exact .map (denoteEntries_of_toEntries he)

theorem denoteItems_of_toItems : ∀ {vs : List Value} {all : List Item}, toItems vs = .ok all →
    DenoteItems vs all
  | [], _, h => by
    rw [toItems] at h
    cases h
    exact .nil
  | v :: rest, _, h => by
    rw [toItems] at h
    obtain ⟨item, hi, h⟩ := bind_eq_ok.mp h
    obtain ⟨others, ho, h⟩ := bind_eq_ok.mp h
    cases h
    exact .cons (denotes_of_toItem hi) (denoteItems_of_toItems ho)

theorem denoteEntries_of_toEntries : ∀ {fields : List (String × Value)}
    {entries : List (Item × Item)}, toEntries fields = .ok entries → DenoteEntries fields entries
  | [], _, h => by
    rw [toEntries] at h
    cases h
    exact .nil
  | (name, v) :: rest, _, h => by
    rw [toEntries] at h
    obtain ⟨item, hi, h⟩ := bind_eq_ok.mp h
    obtain ⟨others, ho, h⟩ := bind_eq_ok.mp h
    cases h
    exact .cons (denotes_of_toItem hi) (denoteEntries_of_toEntries ho)

end

/-- Numbers whose whole part can be had. -/
def Held : Value → Prop
  | .float x => ∃ n, wholePart x = .ok n
  | .decimal d => ∃ n, wholePartOf d = .ok n
  | _ => True

theorem exists_toItems_iff {vs : List Value} :
    (∃ all, toItems vs = .ok all) ↔ ∀ v ∈ vs, ∃ item, v.toItem = .ok item := by
  induction vs with
  | nil => exact iff_of_true ⟨[], by rw [toItems]⟩ (List.forall_mem_nil _)
  | cons v rest ih =>
    rw [List.forall_mem_cons, ← ih, toItems]
    constructor
    · rintro ⟨all, h⟩
      obtain ⟨item, hi, h⟩ := bind_eq_ok.mp h
      obtain ⟨others, ho, -⟩ := bind_eq_ok.mp h
      exact ⟨⟨item, hi⟩, others, ho⟩
    · rintro ⟨⟨item, hi⟩, others, ho⟩
      exact ⟨item :: others, by rw [hi, ho]; rfl⟩

theorem exists_toEntries_iff {fields : Record} :
    (∃ entries, toEntries fields = .ok entries) ↔ ∀ f ∈ fields, ∃ item, f.2.toItem = .ok item := by
  induction fields with
  | nil => exact iff_of_true ⟨[], by rw [toEntries]⟩ (List.forall_mem_nil _)
  | cons f rest ih =>
    rw [List.forall_mem_cons, ← ih, toEntries]
    constructor
    · rintro ⟨entries, h⟩
      obtain ⟨item, hi, h⟩ := bind_eq_ok.mp h
      obtain ⟨others, ho, -⟩ := bind_eq_ok.mp h
      exact ⟨⟨item, hi⟩, others, ho⟩
    · rintro ⟨⟨item, hi⟩, others, ho⟩
      exact ⟨(.text f.1, item) :: others, by rw [hi, ho]; rfl⟩

/-- A value has an item if every number in it can be had, at any depth. -/
theorem exists_toItem_iff {v : Value} : (∃ item, v.toItem = .ok item) ↔ v.Every Held := by
  induction v using partsInduction with
  | null | bool | int | text | bytes =>
    rw [toItem]
    exact iff_of_true ⟨_, rfl⟩ ((every_leaf rfl rfl).mpr trivial)
  | float | decimal =>
    rw [toItem, exists_map_iff, every_leaf rfl rfl]
    exact Iff.rfl
  | list items ih =>
    rw [toItem, exists_map_iff, exists_toItems_iff, every_list]
    exact (forall₂_congr ih).trans (and_iff_right trivial).symm
  | map fields ih =>
    rw [toItem, exists_map_iff, exists_toEntries_iff, every_map]
    exact (forall₂_congr ih).trans (and_iff_right trivial).symm

/-- Decimals have coefficients of ninety-six bits. -/
def DecimalFits : Value → Prop
  | .decimal d => d.coefficient.natAbs < Decimal.limit
  | _ => True

theorem wholePartOf_decimal {d : Decimal} (h : d.coefficient.natAbs < Decimal.limit) :
    wholePartOf d = .ok d.trunc := by
  have hle := d.natAbs_trunc_le
  have hlimit : Decimal.limit = 2 ^ 96 := rfl
  exact wholePartOf_eq_ok.mpr ⟨d.isTrunc_trunc, by omega, by omega⟩

theorem held_decimal {d : Decimal} (h : d.coefficient.natAbs < Decimal.limit) :
    Held (.decimal d) := ⟨d.trunc, wholePartOf_decimal h⟩

/-- A value has no item exactly if there is a double in it, at any depth, that is not finite or
whose whole part is no number of 128 bits; decimals are never in the way. The item that a value has
is the one it stands for: everything has its place and name, whole numbers are as they were, and
doubles and decimals are cut to the one number between them and zero that is less than one away. -/
theorem toItem_cuts {v : Value} (hv : v.Every DecimalFits) :
    ((∃ fault, v.toItem = .error fault) ↔ ∃ x, Part (.float x) v ∧
      (x.toRat? = none ∨
        ∃ q n, x.toRat? = some q ∧ IsTrunc q n ∧ ¬(-2 ^ 127 ≤ n ∧ n < 2 ^ 127))) ∧
    ∀ item, v.toItem = .ok item → ∀ other, v.Denotes other ↔ other = item := by
  constructor
  · rw [exists_error_iff, exists_toItem_iff]
    constructor
    · intro h
      obtain ⟨w, hw, hheld⟩ : ∃ w, Part w v ∧ ¬Held w := by
        simpa only [Every, not_forall, exists_prop] using h
      cases w with
      | float x =>
        refine ⟨x, hw, ?_⟩
        cases hq : x.toRat? with
        | none => exact .inl rfl
        | some q =>
          obtain ⟨n, hn⟩ := Binary64.exists_trunc hq
          obtain ⟨_, hq', hcut⟩ := Binary64.trunc?_eq_some_iff.mp hn
          cases hq.symm.trans hq'
          refine .inr ⟨q, n, rfl, hcut, fun hrange => hheld ⟨n, ?_⟩⟩
          exact wholePart_eq_ok.mpr ⟨q, hq, hcut, hrange⟩
      | decimal d => exact absurd (held_decimal (hv _ hw)) hheld
      | _ => exact absurd trivial hheld
    · rintro ⟨x, hx, hout⟩ hevery
      obtain ⟨n, hn⟩ := hevery _ hx
      obtain ⟨q, hq, hcut, hrange⟩ := wholePart_eq_ok.mp hn
      rcases hout with hnone | ⟨p, m, hp, hm, hout⟩
      · cases hnone.symm.trans hq
      · cases hp.symm.trans hq
        exact hout (hm.unique hcut ▸ hrange)
  · intro item hi other
    have hd := denotes_of_toItem hi
    exact ⟨fun ho => ho.unique hd, fun ho => ho ▸ hd⟩

/-- The least number of 128 bits as a double, and minus one and nine tenths. -/
def borders : Value :=
  .map [("b", .list [.float ⟨0xc7e0000000000000⟩, .decimal ⟨-19, 1⟩]), ("a", .null)]

/-- The number after the greatest of 128 bits. -/
def pastBorder : Value := .list [.int 1, .map [("x", .float ⟨0x47e0000000000000⟩)]]

theorem toItem_cuts_borders :
    borders.toItem =
      .ok (.map [(.text "b", .list [.int (-2 ^ 127), .int (-1)]), (.text "a", .null)]) ∧
    borders.Denotes (.map [(.text "b", .list [.int (-2 ^ 127), .int (-1)]), (.text "a", .null)]) ∧
    ∃ x, Part (.float x) pastBorder ∧ (x.toRat? = none ∨
      ∃ q n, x.toRat? = some q ∧ IsTrunc q n ∧ ¬(-2 ^ 127 ≤ n ∧ n < 2 ^ 127)) := by
  have hleaf {w : Value} (hl : w.list? = none) (hm : w.map? = none) (hs : DecimalFits w) :
      w.Every DecimalFits := (every_leaf hl hm).mpr hs
  have hdecimal : DecimalFits (.decimal ⟨-19, 1⟩) := show 19 < Decimal.limit by decide
  have hborders : borders.Every DecimalFits := by
    simp only [borders, every_map, every_list, List.forall_mem_cons]
    exact ⟨trivial, ⟨trivial, hleaf rfl rfl trivial, hleaf rfl rfl hdecimal, nofun⟩,
      hleaf rfl rfl trivial, nofun⟩
  have hpast : pastBorder.Every DecimalFits := by
    simp only [pastBorder, every_map, every_list, List.forall_mem_cons]
    exact ⟨trivial, hleaf rfl rfl trivial, ⟨trivial, hleaf rfl rfl trivial, nofun⟩, nofun⟩
  have hitem : borders.toItem =
      .ok (.map [(.text "b", .list [.int (-2 ^ 127), .int (-1)]), (.text "a", .null)]) := rfl
  refine ⟨hitem, ((toItem_cuts hborders).2 _ hitem _).mpr rfl, ?_⟩
  exact (toItem_cuts hpast).1.mp ⟨.tooLarge ⟨0x47e0000000000000⟩, rfl⟩

/-! ## Numbers of sixty-four bits -/

section

variable {x : Binary64} {n : Int}

/-- Whole numbers, doubles and decimals. -/
def IsNumber : Value → Prop
  | .int _ | .float _ | .decimal _ => True
  | _ => False

theorem denotes_float_iff : Denotes (.float x) (.int n) ↔ x.trunc? = some n := by
  rw [Binary64.trunc?_eq_some_iff]
  constructor
  · intro h
    cases h with
    | float hq hn => exact ⟨_, hq, hn⟩
  · rintro ⟨_, hq, hn⟩
    exact .float hq hn

/-- A double is cut and then clamped to the word. -/
theorem toInt64?_float_iff : toInt64? (.float x) = some n ↔
    ∃ m, x.trunc? = some m ∧ Numeral.clampSigned 64 m = n := by
  rw [toInt64?, Binary64.isFinite_eq]
  cases hq : x.toRat? with
  | none =>
    refine iff_of_false nofun ?_
    rintro ⟨m, hm, -⟩
    obtain ⟨_, hq', -⟩ := Binary64.trunc?_eq_some_iff.mp hm
    cases hq.symm.trans hq'
  | some q =>
    obtain ⟨m, hm⟩ := Binary64.exists_trunc hq
    rw [Binary64.toSigned_eq 64 (Binary64.trunc?_truncated hm), Option.isSome_some, if_pos rfl,
      Option.some_inj, hm]
    simp only [Option.some_inj, exists_eq_left']

theorem toItem_float_iff :
    toItem (.float x) = .ok (.int n) ↔ x.trunc? = some n ∧ -2 ^ 127 ≤ n ∧ n < 2 ^ 127 := by
  rw [toItem, map_eq_ok, Binary64.trunc?_eq_some_iff]
  constructor
  · rintro ⟨m, hm, he⟩
    cases he
    obtain ⟨q, hq, hcut, hrange⟩ := wholePart_eq_ok.mp hm
    exact ⟨⟨q, hq, hcut⟩, hrange⟩
  · rintro ⟨⟨q, hq, hcut⟩, hrange⟩
    exact ⟨n, wholePart_eq_ok.mpr ⟨q, hq, hcut, hrange⟩, rfl⟩

theorem toItem_decimal_iff {d : Decimal} :
    toItem (.decimal d) = .ok (.int n) ↔ d.trunc = n ∧ -2 ^ 127 ≤ n ∧ n < 2 ^ 127 := by
  rw [toItem, map_eq_ok]
  constructor
  · rintro ⟨m, hm, he⟩
    cases he
    obtain ⟨hcut, hrange⟩ := wholePartOf_eq_ok.mp hm
    exact ⟨d.isTrunc_trunc.unique hcut, hrange⟩
  · rintro ⟨rfl, hrange⟩
    exact ⟨_, wholePartOf_eq_ok.mpr ⟨d.isTrunc_trunc, hrange⟩, rfl⟩

/-- The short reading of a number is its item, if that is a number of sixty-four bits, and there is
none for whole numbers and decimals beyond those. A double beyond them is read as the end of the
word next to it, which is not the number it stands for. -/
theorem toInt64_agrees {v : Value} (hv : v.IsNumber) :
    v.toInt64? = some n ↔ (v.toItem = .ok (.int n) ∧ -2 ^ 63 ≤ n ∧ n < 2 ^ 63) ∨
      ∃ x m, v = .float x ∧ v.Denotes (.int m) ∧
        (m < -2 ^ 63 ∧ n = -2 ^ 63 ∨ 2 ^ 63 ≤ m ∧ n = 2 ^ 63 - 1) := by
  have hfits {k : Int} : Numeral.fitsSigned 64 k ↔ -2 ^ 63 ≤ k ∧ k < 2 ^ 63 :=
    Numeral.fitsSigned_iff
  cases v with
  | int k =>
    rw [toInt64?, Option.ite_none_right_eq_some, hfits, toItem]
    constructor
    · rintro ⟨hk, he⟩
      cases he
      exact .inl ⟨rfl, hk⟩
    · rintro (⟨he, hk⟩ | ⟨_, _, he, -⟩)
      · cases he
        exact ⟨hk, rfl⟩
      · cases he
  | decimal d =>
    rw [toInt64?, Decimal.toSigned?, Option.ite_none_right_eq_some, hfits, toItem_decimal_iff]
    constructor
    · rintro ⟨hd, he⟩
      cases he
      exact .inl ⟨⟨rfl, by omega⟩, hd⟩
    · rintro (⟨⟨rfl, -⟩, hd⟩ | ⟨_, _, he, -⟩)
      · exact ⟨hd, rfl⟩
      · cases he
  | float x =>
    have hclamp (m : Int) : Numeral.clampSigned 64 m = max (-2 ^ 63) (min (2 ^ 63 - 1) m) :=
      Numeral.clampSigned_eq 64 m
    rw [toItem_float_iff, toInt64?_float_iff]
    constructor
    · rintro ⟨m, hm, he⟩
      rw [hclamp] at he
      by_cases hin : -2 ^ 63 ≤ m ∧ m < 2 ^ 63
      · obtain rfl : m = n := by omega
        exact .inl ⟨⟨hm, by omega⟩, hin⟩
      · exact .inr ⟨x, m, rfl, denotes_float_iff.mpr hm, by omega⟩
    · rintro (⟨⟨hn, -⟩, hin⟩ | ⟨_, m, -, hm, hout⟩)
      · exact ⟨n, hn, Numeral.clampSigned_of_fits (hfits.mpr hin)⟩
      · exact ⟨m, denotes_float_iff.mp hm, by rw [hclamp]; omega⟩
  | _ => exact hv.elim

/-- The number after the greatest of sixty-four bits, as a double, is read as the greatest. -/
theorem toInt64_agrees_past_word :
    IsNumber (.float ⟨0x43e0000000000000⟩) ∧
    toItem (.float ⟨0x43e0000000000000⟩) = .ok (.int (2 ^ 63)) ∧
    toInt64? (.float ⟨0x43e0000000000000⟩) = some (2 ^ 63 - 1) := by
  have hv : IsNumber (.float ⟨0x43e0000000000000⟩) := trivial
  refine ⟨hv, rfl, (toInt64_agrees hv).mpr (.inr ?_)⟩
  exact ⟨⟨0x43e0000000000000⟩, 2 ^ 63, rfl, denotes_float_iff.mpr rfl, .inr ⟨le_refl _, rfl⟩⟩

end

end Value

end TrieFeed
