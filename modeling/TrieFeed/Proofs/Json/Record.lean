import TrieFeed.Json.Shape
import TrieFeed.Proofs.Value.Documents
/-!
# Records in documents

A record writes those of its fields that are there, under names of their own. A reader that asks for
them by name gets what was written, and nothing where nothing was.
-/
namespace TrieFeed

namespace Fields

variable {α : Type} {name : String}

/-- The fields that are there, in order. -/
def there (fields : Fields (Option α)) : Fields α :=
  fields.filterMap fun field => field.2.map (field.1, ·)

theorem names_there (fields : Fields (Option α)) :
    (names (there fields)).Sublist (names fields) := by
  induction fields with
  | nil => exact .slnil
  | cons field rest ih =>
    obtain ⟨name, value⟩ := field
    cases value with
    | none => exact ih.cons _
    | some a => exact ih.cons_cons _

theorem Distinct.there {fields : Fields (Option α)} (hd : Distinct fields) :
    Distinct (there fields) :=
  List.Nodup.sublist (names_there fields) hd

/-- Under different names a field is found if it is there. -/
theorem get?_there {fields : Fields (Option α)} (hd : Distinct fields) {value : Option α}
    (hf : get? name fields = some value) : get? name (Fields.there fields) = value := by
  induction fields with
  | nil => cases hf
  | cons field rest ih =>
    obtain ⟨hm, hr⟩ := List.nodup_cons.mp hd
    obtain ⟨other, old⟩ := field
    rw [get?] at hf
    split at hf
    · rename_i he
      cases hf
      subst he
      cases value with
      | none => exact get?_eq_none fun h => hm ((names_there rest).mem h)
      | some a => exact if_pos rfl
    · rename_i hne
      cases old with
      | none => exact ih hr hf
      | some a => exact (if_neg hne).trans (ih hr hf)

/-- Different names leave one field at most under a name. -/
theorem Distinct.filter_name {fields : Fields α} (hd : Distinct fields) (name : String) :
    List.filter (fun field => [name].contains field.1) fields =
      ((get? name fields).map (name, ·)).toList := by
  induction fields with
  | nil => rfl
  | cons field rest ih =>
    obtain ⟨hm, hr⟩ := List.nodup_cons.mp hd
    by_cases hf : field.1 = name
    · subst hf
      rw [List.filter_cons_of_pos (by simp), ih hr, get?, if_pos rfl, get?_eq_none hm]
      rfl
    · rw [List.filter_cons_of_neg (by simpa using hf), ih hr, get?, if_neg hf]

end Fields

namespace Json

open Fields (Distinct there)

theorem pick?_eq {slot : Slot} {name : String} (hs : slot.names = [name]) {fields : Fields Json}
    (hd : Distinct fields) : slot.pick? fields = some (Fields.get? name fields) := by
  rw [Slot.pick?, hs, hd.filter_name]
  cases Fields.get? name fields <;> rfl

/-- A record that was written under the names of the slots is read field by field. -/
theorem record?_there {fields : Fields (Option Json)} (hd : Distinct fields) {slots : List Slot}
    (hs : slots.map (·.names) = fields.map fun field => [field.1]) :
    record? slots (.object (there fields)) = some (fields.map (·.2)) := by
  have hpart : ∀ part : Fields (Option Json), (∀ field ∈ part, field ∈ fields) →
      ∀ slots : List Slot, slots.map (·.names) = part.map (fun field => [field.1]) →
        slots.mapM (fun slot => slot.pick? (there fields)) = some (part.map (·.2)) := by
    intro part
    induction part with
    | nil =>
      intro _ slots hs
      rw [List.map_eq_nil_iff.mp hs]
      rfl
    | cons field rest ih =>
      intro hm slots hs
      obtain ⟨slot, others, rfl, hslot, hothers⟩ := List.map_eq_cons_iff.mp hs
      obtain ⟨hfield, hrest⟩ := List.forall_mem_cons.mp hm
      rw [List.mapM_cons, pick?_eq hslot hd.there,
        Fields.get?_there hd (Fields.get?_of_mem hd hfield), ih hrest others hothers]
      rfl
  exact hpart fields (fun _ h => h) slots hs

/-! ## Single fields -/

variable {α β : Type} {read : Json → Option α} {write : β → Json} {f : β → α}

/-- A field that may be absent comes back if its value does. -/
theorem absentable?_map {field : Option β} (hnull : ∀ b, write b ≠ .null)
    (hread : ∀ b ∈ field, read (write b) = some (f b)) :
    absentable? read (field.map write) = some (field.map f) := by
  cases field with
  | none => rfl
  | some b =>
    change nullable? read (write b) = some (some (f b))
    unfold nullable?
    split
    · rename_i he
      exact absurd he (hnull b)
    · rw [hread b rfl]
      rfl

theorem listOf?_map {bs : List β} (hread : ∀ b ∈ bs, read (write b) = some (f b)) :
    listOf? read (.list (bs.map write)) = some (bs.map f) := by
  change (bs.map write).mapM read = _
  induction bs with
  | nil => rfl
  | cons b rest ih =>
    obtain ⟨hb, hrest⟩ := List.forall_mem_cons.mp hread
    rw [List.map_cons, List.mapM_cons, hb, ih hrest]
    rfl

/-! ## Documents as values -/

/-- A record that was written, read as a value. -/
def asRecord (fields : Fields (Option Json)) : Record :=
  (there fields).map fun field => (field.1, .ofJson field.2)

theorem get?_asRecord {fields : Fields (Option Json)} (hd : Distinct fields) {name : String}
    {value : Option Json} (hf : Fields.get? name fields = some value) :
    Fields.get? name (asRecord fields) = value.map .ofJson := by
  rw [← Fields.get?_there hd hf]
  exact Fields.get?_map Value.ofJson name (there fields)

theorem ofJson_there (fields : Fields (Option Json)) :
    Value.ofJson (.object (there fields)) = .map (asRecord fields) :=
  Value.ofJson_object _

theorem sound_there {fields : Fields (Option Json)}
    (hs : ∀ field ∈ fields, ∀ json ∈ field.2, json.Sound) : (object (there fields)).Sound := by
  refine .object fun field hf => ?_
  obtain ⟨⟨name, value⟩, hm, he⟩ := List.mem_filterMap.mp hf
  obtain ⟨json, hj, rfl⟩ := Option.map_eq_some_iff.mp he
  exact hs _ hm json hj

end Json

end TrieFeed
