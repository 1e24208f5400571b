import TrieFeed.Proofs.Fields
import TrieFeed.Proofs.Value.Parts
/-!
# Detecting bytes

A byte-like map becomes bytes and all else stays in its place, so that no such map is left and
detecting again changes nothing. A map is judged before what is in it: this is sound because neither
a map nor the bytes that it becomes is ever a length or an element of the map around it.
-/
namespace TrieFeed.Value

variable {fields : Record} {b : Bytes}

theorem detectBytes_list (items : List Value) :
    detectBytes (.list items) = .list (detectItems items) := by
  rw [detectBytes]

theorem detectBytes_map (h : byteLike? fields = none) :
    detectBytes (.map fields) = .map (detectFields fields) := by
  rw [detectBytes, h]

theorem detectBytes_byteLike (h : byteLike? fields = some b) :
    detectBytes (.map fields) = .bytes b := by
  rw [detectBytes, h]

theorem detectItems_eq (items : List Value) : detectItems items = items.map detectBytes := by
  induction items with
  | nil => rw [detectItems, List.map_nil]
  | cons v rest ih => rw [detectItems, ih, List.map_cons]

theorem detectFields_eq (fields : Record) :
    detectFields fields = fields.map fun f => (f.1, f.2.detectBytes) := by
  induction fields with
  | nil => rw [detectFields, List.map_nil]
  | cons f rest ih => rw [detectFields, ih, List.map_cons]

/-! ## What is judged before its parts -/

/-- What cannot be read from lists, maps and bytes is read from a value as from what becomes of
it. -/
theorem reading_detectBytes {α : Type} {read : Value → Option α}
    (hlist : ∀ items, read (.list items) = none) (hmap : ∀ fields, read (.map fields) = none)
    (hbytes : ∀ b, read (.bytes b) = none) (v : Value) : read v.detectBytes = read v := by
  cases v with
  | list items => rw [detectBytes_list, hlist, hlist]
  | map fields =>
    cases hb : byteLike? fields with
    | none => rw [detectBytes_map hb, hmap, hmap]
    | some b => rw [detectBytes_byteLike hb, hbytes, hmap]
  | _ => rw [detectBytes]

theorem toInt64?_detectBytes (v : Value) : v.detectBytes.toInt64? = v.toInt64? :=
  reading_detectBytes (fun _ => rfl) (fun _ => rfl) (fun _ => rfl) v

theorem elementByte?_detectBytes (v : Value) : v.detectBytes.elementByte? = v.elementByte? :=
  reading_detectBytes (fun _ => rfl) (fun _ => rfl) (fun _ => rfl) v

/-- What becomes of the values in a map does not make it byte-like, nor keep it from being so. -/
theorem byteLike?_detectFields (fields : Record) :
    byteLike? (detectFields fields) = byteLike? fields := by
  have hget (name : String) : Fields.get? name (detectFields fields) =
      (Fields.get? name fields).map detectBytes := by
    rw [detectFields_eq]
    exact Fields.get?_map detectBytes name fields
  have hlength : (detectFields fields).length = fields.length := by
    rw [detectFields_eq, List.length_map]
  have hint : toInt64? ∘ detectBytes = toInt64? := funext toInt64?_detectBytes
  have hbyte : elementByte? ∘ detectBytes = elementByte? := funext elementByte?_detectBytes
  simp only [byteLike?, hget, hlength, Option.bind_map, hint, hbyte]

/-! ## Nothing is left to detect -/

/-- No map that is taken for bytes. -/
def Kept (v : Value) : Prop := v.map?.bind byteLike? = none

theorem every_kept_detectBytes (v : Value) : v.detectBytes.Every Kept := by
  induction v using partsInduction with
  | list items ih =>
    rw [detectBytes_list, detectItems_eq, every_list]
    refine ⟨rfl, fun w hw => ?_⟩
    obtain ⟨v, hv, rfl⟩ := List.mem_map.mp hw
    exact ih v hv
  | map fields ih =>
    cases hb : byteLike? fields with
    | some b =>
      rw [detectBytes_byteLike hb]
      exact (every_leaf rfl rfl).mpr rfl
    | none =>
      have hkept : Kept (.map (detectFields fields)) := (byteLike?_detectFields fields).trans hb
      rw [detectBytes_map hb, every_map]
      refine ⟨hkept, fun g hg => ?_⟩
      rw [detectFields_eq] at hg
      obtain ⟨f, hf, rfl⟩ := List.mem_map.mp hg
      exact ih f hf
  | _ =>
    rw [detectBytes]
    exact (every_leaf rfl rfl).mpr rfl

theorem detectBytes_of_kept {v : Value} (h : v.Every Kept) : v.detectBytes = v := by
  induction v using partsInduction with
  | list items ih =>
    have hitems : items.map detectBytes = items :=
      map_items_eq_self_iff.mpr fun v hv => ih v hv (h.item hv)
    rw [detectBytes_list, detectItems_eq, hitems]
  | map fields ih =>
    have hfields : (fields.map fun f => (f.1, f.2.detectBytes)) = fields :=
      Fields.map_values_eq_self_iff.mpr fun f hf => ih f hf (h.field hf)
    rw [detectBytes_map h.self, detectFields_eq, hfields]
  | _ => rw [detectBytes]

/-- Detecting bytes in a value leaves no map in it, however deep, that is taken for bytes, so that
detecting them again changes nothing. What holds no such map is left as it is, its items and fields
in their order, and nothing else is. -/
theorem detectBytes_settled (v : Value) :
    v.detectBytes.detectBytes = v.detectBytes ∧ v.detectBytes.Every Kept ∧
      (v.detectBytes = v ↔ v.Every Kept) := by
  have hkept := every_kept_detectBytes v
  refine ⟨detectBytes_of_kept hkept, hkept, ?_, detectBytes_of_kept⟩
  intro h
  rwa [h] at hkept

end TrieFeed.Value
