import TrieFeed.Codec.Cbor
import TrieFeed.Proofs.Codec.UniqueReading
import TrieFeed.Proofs.Fields
import TrieFeed.Proofs.Value.Parts
import TrieFeed.Value.Item
/-!
# Binary forms of values

Values without doubles and decimals are read back from their items, order of fields included, so two
of them have one binary form only if they are one value.
-/
namespace TrieFeed

mutual

/-- The value that an item stands for, where keys are names. -/
def Item.value : Item → Value
  | .null => .null
  | .int n => .int n
  | .bytes b => .bytes b
  | .text s => .text s
  | .bool b => .bool b
  | .list items => .list (Item.values items)
  | .map entries => .map (Item.fields entries)

def Item.values : List Item → List Value
  | [] => []
  | item :: rest => item.value :: Item.values rest

def Item.fields : List (Item × Item) → List (String × Value)
  | [] => []
  | (.text name, item) :: rest => (name, item.value) :: Item.fields rest
  | _ :: rest => Item.fields rest

end

namespace Value

/-- Values that are neither doubles nor decimals; whole numbers have 128 bits. -/
def Exact : Value → Prop
  | .int n => Numeral.fitsSigned 128 n
  | .float _ | .decimal _ => False
  | _ => True

/-- Values of lengths that are counted in words. -/
def Counted : Value → Prop
  | .text s => Utf8.size s < Nat.pow 2 64
  | .bytes b => b.length < Nat.pow 2 64
  | .list items => items.length < Nat.pow 2 64
  | .map fields =>
    fields.length < Nat.pow 2 64 ∧ ∀ name ∈ Fields.names fields, Utf8.size name < Nat.pow 2 64
  | _ => True

/-- The item of a value, which tells the value. -/
structure HasItem (v : Value) (item : Item) : Prop where
  made : v.toItem = .ok item
  read : item.value = v
  fits : v.Every Counted → item.Fits

theorem toItems_exact {items : List Value} (h : ∀ v ∈ items, ∃ item, HasItem v item) :
    ∃ all, toItems items = .ok all ∧ Item.values all = items ∧ all.length = items.length ∧
      ((∀ v ∈ items, v.Every Counted) → Item.AllFit all) := by
  induction items with
  | nil => exact ⟨[], rfl, rfl, rfl, fun _ => trivial⟩
  | cons v rest ih =>
    obtain ⟨item, hi⟩ := h v List.mem_cons_self
    obtain ⟨all, hm, hr, hl, hf⟩ := ih fun w hw => h w (List.mem_cons_of_mem v hw)
    refine ⟨item :: all, ?_, ?_, ?_, ?_⟩
    · rw [toItems, hi.made, hm]
      rfl
    · rw [Item.values, hi.read, hr]
    · rw [List.length_cons, List.length_cons, hl]
    · intro hc
      obtain ⟨hv, hc⟩ := List.forall_mem_cons.mp hc
      exact ⟨hi.fits hv, hf hc⟩

theorem toEntries_exact {fields : Record} (h : ∀ f ∈ fields, ∃ item, HasItem f.2 item) :
    ∃ all, toEntries fields = .ok all ∧ Item.fields all = fields ∧ all.length = fields.length ∧
      ((∀ name ∈ Fields.names fields, Utf8.size name < Nat.pow 2 64) →
        (∀ f ∈ fields, f.2.Every Counted) → Item.EntriesFit all) := by
  induction fields with
  | nil => exact ⟨[], rfl, rfl, rfl, fun _ _ => trivial⟩
  | cons f rest ih =>
    obtain ⟨item, hi⟩ := h f List.mem_cons_self
    obtain ⟨all, hm, hr, hl, hf⟩ := ih fun g hg => h g (List.mem_cons_of_mem f hg)
    refine ⟨(.text f.1, item) :: all, ?_, ?_, ?_, ?_⟩
    · rw [toEntries, hi.made, hm]
      rfl
    · rw [Item.fields, hi.read, hr]
    · rw [List.length_cons, List.length_cons, hl]
    · intro hn hc
      obtain ⟨hname, hn⟩ := List.forall_mem_cons.mp hn
      obtain ⟨hv, hc⟩ := List.forall_mem_cons.mp hc
      exact ⟨hname, hi.fits hv, hf hn hc⟩

theorem exists_item {v : Value} (h : v.Every Exact) : ∃ item, HasItem v item := by
  induction v using partsInduction with
  | null => exact ⟨.null, rfl, rfl, fun _ => trivial⟩
  | bool b => exact ⟨.bool b, rfl, rfl, fun _ => trivial⟩
  | int n => exact ⟨.int n, rfl, rfl, fun _ => h.self⟩
  | float x => exact h.self.elim
  | decimal d => exact h.self.elim
  | text s => exact ⟨.text s, rfl, rfl, fun hc => hc.self⟩
  | bytes b => exact ⟨.bytes b, rfl, rfl, fun hc => hc.self⟩
  | list items ih =>
    obtain ⟨all, hm, hr, hl, hf⟩ := toItems_exact fun v hv => ih v hv (h.item hv)
    refine ⟨.list all, ?_, ?_, ?_⟩
    · rw [toItem, hm]
      rfl
    · rw [Item.value, hr]
    · intro hc
      have hs : items.length < Nat.pow 2 64 := hc.self
      exact ⟨hl ▸ hs, hf fun v hv => hc.item hv⟩
  | map fields ih =>
    obtain ⟨all, hm, hr, hl, hf⟩ := toEntries_exact fun f hf => ih f hf (h.field hf)
    refine ⟨.map all, ?_, ?_, ?_⟩
    · rw [toItem, hm]
      rfl
    · rw [Item.value, hr]
    · intro hc
      obtain ⟨hs, hn⟩ : fields.length < Nat.pow 2 64 ∧
        ∀ name ∈ Fields.names fields, Utf8.size name < Nat.pow 2 64 := hc.self
      exact ⟨hl ▸ hs, hf hn fun f hm => hc.field hm⟩

/-- The bytes of the item of a value. -/
def binary? (v : Value) : Except Fault Bytes := v.toItem.map Cbor.encode

theorem binary?_exact {v : Value} (h : v.Every Exact) : ∃ bytes, v.binary? = .ok bytes := by
  obtain ⟨item, hi⟩ := exists_item h
  exact ⟨Cbor.encode item, by rw [binary?, hi.made]; rfl⟩

theorem binary?_inj {v w : Value} (hv : v.Every Exact) (hw : w.Every Exact)
    (hcv : v.Every Counted) (hcw : w.Every Counted) : v.binary? = w.binary? ↔ v = w := by
  obtain ⟨item, hi⟩ := exists_item hv
  obtain ⟨other, ho⟩ := exists_item hw
  rw [binary?, binary?, hi.made, ho.made]
  constructor
  · intro h
    have he : Cbor.encode item = Cbor.encode other := Except.ok.inj h
    have hio := @Cbor.encode_append_inj item other [] [] (hi.fits hcv) (ho.fits hcw) (by rw [he])
    rw [← hi.read, ← ho.read, hio.1]
  · rintro rfl
    rw [← hi.made, ho.made]

end Value

end TrieFeed
