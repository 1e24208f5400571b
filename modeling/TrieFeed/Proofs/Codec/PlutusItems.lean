import Mathlib.Logic.Basic
import TrieFeed.Codec.Plutus
import TrieFeed.Proofs.Outcome
import TrieFeed.Proofs.Value.Parts
import TrieFeed.Value.Item
/-!
# Items as Plutus data

Data that is made from an item has the item's binary form. Null, booleans and texts make no data, so
a value makes none if one of them is part of it, or a map with a field, whose name is a text.
-/
namespace TrieFeed

open TrieFeed.Outcome (bind_eq_ok map_eq_ok exists_map_iff)

namespace PlutusData

mutual

theorem toCbor_ofItem : ∀ {item : Item} {data : PlutusData}, ofItem item = .ok data →
    toCbor data = Cbor.encode item
  | .int n, data, h => by
    rw [ofItem] at h
    cases h
    rw [toCbor, Cbor.encode]
  | .bytes b, data, h => by
    rw [ofItem] at h
    cases h
    rw [toCbor, Cbor.encode]
  | .list items, data, h => by
    rw [ofItem] at h
    obtain ⟨all, ha, rfl⟩ := map_eq_ok.mp h
    obtain ⟨hl, hb⟩ := listToCbor_ofItems ha
    rw [toCbor, Cbor.encode, hl, hb]
  | .map entries, data, h => by
    rw [ofItem] at h
    obtain ⟨all, ha, rfl⟩ := map_eq_ok.mp h
    obtain ⟨hl, hb⟩ := entriesToCbor_ofEntries ha
    rw [toCbor, Cbor.encode, hl, hb]
  | .null, data, h => by rw [ofItem] at h; cases h
  | .text s, data, h => by rw [ofItem] at h; cases h
  | .bool b, data, h => by rw [ofItem] at h; cases h

theorem listToCbor_ofItems : ∀ {items : List Item} {all : List PlutusData},
    ofItems items = .ok all →
    all.length = items.length ∧ listToCbor all = Cbor.encodeItems items
  | [], all, h => by
    rw [ofItems] at h
    cases h
    exact ⟨rfl, by rw [listToCbor, Cbor.encodeItems]⟩
  | item :: items, all, h => by
    rw [ofItems] at h
    obtain ⟨data, hd, h⟩ := bind_eq_ok.mp h
    obtain ⟨rest, hr, h⟩ := bind_eq_ok.mp h
    cases h
    obtain ⟨hl, hb⟩ := listToCbor_ofItems hr
    exact ⟨congrArg (· + 1) hl, by rw [listToCbor, Cbor.encodeItems, toCbor_ofItem hd, hb]⟩

theorem entriesToCbor_ofEntries : ∀ {entries : List (Item × Item)}
    {all : List (PlutusData × PlutusData)}, ofEntries entries = .ok all →
    all.length = entries.length ∧ entriesToCbor all = Cbor.encodeEntries entries
  | [], all, h => by
    rw [ofEntries] at h
    cases h
    exact ⟨rfl, by rw [entriesToCbor, Cbor.encodeEntries]⟩
  | (key, value) :: entries, all, h => by
    rw [ofEntries] at h
    obtain ⟨k, hk, h⟩ := bind_eq_ok.mp h
    obtain ⟨v, hv, h⟩ := bind_eq_ok.mp h
    obtain ⟨rest, hr, h⟩ := bind_eq_ok.mp h
    cases h
    obtain ⟨hl, hb⟩ := entriesToCbor_ofEntries hr
    exact ⟨congrArg (· + 1) hl, by
      rw [entriesToCbor, Cbor.encodeEntries, toCbor_ofItem hk, toCbor_ofItem hv, hb]⟩

end

theorem toCbor_ofConstr {alternative : Nat} {fields : List Item} {data : PlutusData}
    (h : ofConstr alternative fields = .ok data) :
    toCbor data = Cbor.encodeConstr alternative fields := by
  rw [ofConstr] at h
  obtain ⟨all, ha, rfl⟩ := map_eq_ok.mp h
  obtain ⟨hl, hb⟩ := listToCbor_ofItems ha
  rw [toCbor, Cbor.encodeConstr, Cbor.encodeList, Cbor.encode, hl, hb, List.append_assoc]

end PlutusData

/-! ## Values that make data -/

namespace Value

open PlutusData (ofItem ofItems ofEntries)

/-- Values that Plutus data has no place for. The names of fields are texts, so that only an empty
map has one. -/
def Foreign : Value → Prop
  | .null | .bool _ | .text _ => True
  | .map fields => fields ≠ []
  | _ => False

theorem ofItems_toItems {items : List Value}
    (h : ∀ v ∈ items, ∀ {item : Item}, v.toItem = .ok item →
      ((∃ data, ofItem item = .ok data) ↔ v.Every (¬Foreign ·)))
    {all : List Item} (ha : toItems items = .ok all) :
    (∃ data, ofItems all = .ok data) ↔ ∀ v ∈ items, v.Every (¬Foreign ·) := by
  induction items generalizing all with
  | nil =>
    rw [toItems] at ha
    cases ha
    exact iff_of_true ⟨[], by rw [ofItems]⟩ fun _ hv => (List.not_mem_nil hv).elim
  | cons v rest ih =>
    rw [toItems] at ha
    obtain ⟨item, hi, ha⟩ := bind_eq_ok.mp ha
    obtain ⟨others, ho, ha⟩ := bind_eq_ok.mp ha
    cases ha
    obtain ⟨hv, hrest⟩ := List.forall_mem_cons.mp h
    rw [List.forall_mem_cons, ← hv hi, ← ih hrest ho, ofItems]
    constructor
    · rintro ⟨data, hd⟩
      obtain ⟨first, hf, hd⟩ := bind_eq_ok.mp hd
      obtain ⟨rest, hr, hd⟩ := bind_eq_ok.mp hd
      exact ⟨⟨first, hf⟩, ⟨rest, hr⟩⟩
    · rintro ⟨⟨first, hf⟩, ⟨rest, hr⟩⟩
      exact ⟨first :: rest, by rw [hf, hr]; rfl⟩

/-- A map fails at the name of its first field, before any of its values. -/
theorem ofItem_toEntries {fields : Record} {entries : List (Item × Item)}
    (h : toEntries fields = .ok entries) :
    (∃ data, ofItem (.map entries) = .ok data) ↔ fields = [] := by
  cases fields with
  | nil =>
    rw [toEntries] at h
    cases h
    exact iff_of_true ⟨.map [], by rw [ofItem, ofEntries]; rfl⟩ rfl
  | cons field rest =>
    rw [toEntries] at h
    obtain ⟨item, -, h⟩ := bind_eq_ok.mp h
    obtain ⟨others, -, h⟩ := bind_eq_ok.mp h
    cases h
    refine iff_of_false ?_ (List.cons_ne_nil field rest)
    rintro ⟨data, hd⟩
    rw [ofItem, ofEntries, ofItem] at hd
    cases hd

/-- Data can be made from the item of a value exactly if no part of the value is foreign. -/
theorem ofItem_toItem {v : Value} {item : Item} (h : v.toItem = .ok item) :
    (∃ data, ofItem item = .ok data) ↔ v.Every (¬Foreign ·) := by
  induction v using partsInduction generalizing item with
  | null | bool | text =>
    rw [toItem] at h
    cases h
    refine iff_of_false ?_ fun he => he.self trivial
    rintro ⟨data, hd⟩
    rw [ofItem] at hd
    cases hd
  | int | bytes =>
    rw [toItem] at h
    cases h
    exact iff_of_true ⟨_, by rw [ofItem]⟩ ((every_leaf rfl rfl).mpr id)
  | float | decimal =>
    rw [toItem] at h
    obtain ⟨n, -, rfl⟩ := map_eq_ok.mp h
    exact iff_of_true ⟨_, by rw [ofItem]⟩ ((every_leaf rfl rfl).mpr id)
  | list items ih =>
    rw [toItem] at h
    obtain ⟨all, ha, rfl⟩ := map_eq_ok.mp h
    rw [ofItem, exists_map_iff, every_list, ofItems_toItems (fun v hv _ => ih v hv) ha]
    exact (and_iff_right id).symm
  | map fields ih =>
    rw [toItem] at h
    obtain ⟨entries, he, rfl⟩ := map_eq_ok.mp h
    rw [ofItem_toEntries he, every_map]
    constructor
    · rintro rfl
      exact ⟨fun hf => hf rfl, fun f hf => (List.not_mem_nil hf).elim⟩
    · rintro ⟨hf, -⟩
      exact Decidable.not_not.mp hf

theorem not_every_iff {v : Value} : ¬v.Every (¬Foreign ·) ↔ ∃ w, Part w v ∧ w.Foreign := by
  simp only [Every, not_forall, not_not, exists_prop]

end Value

end TrieFeed
