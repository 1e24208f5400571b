import TrieFeed.Value.Basic
/-!
# Parts of values

A value is built from values without parts by lists and maps. What holds of every part of a value is
shown by one induction, which meets the items of a list and the values of a map as members.
-/
namespace TrieFeed.Value

/-- Induction over a value and its parts. -/
@[elab_as_elim]
theorem partsInduction {motive : Value → Prop} (null : motive .null)
    (bool : ∀ b, motive (.bool b)) (int : ∀ n, motive (.int n)) (float : ∀ x, motive (.float x))
    (decimal : ∀ d, motive (.decimal d)) (text : ∀ s, motive (.text s))
    (bytes : ∀ b, motive (.bytes b))
    (list : ∀ items, (∀ v ∈ items, motive v) → motive (.list items))
    (map : ∀ fields, (∀ f ∈ fields, motive f.2) → motive (.map fields)) (v : Value) : motive v :=
  @Value.rec motive (fun items => ∀ v ∈ items, motive v) (fun fields => ∀ f ∈ fields, motive f.2)
    (fun f => motive f.2) null bool int float decimal text bytes list map
    (fun _ h => nomatch h)
    (fun _ _ hv hrest _ h => by
      rcases List.mem_cons.mp h with rfl | h
      · exact hv
      · exact hrest _ h)
    (fun _ h => nomatch h)
    (fun _ _ hf hrest _ h => by
      rcases List.mem_cons.mp h with rfl | h
      · exact hf
      · exact hrest _ h)
    (fun _ _ hv => hv) v

/-- A value is part of itself, and of what it stands in. -/
inductive Part : Value → Value → Prop where
  | self (v) : Part v v
  | item {w v items} : v ∈ items → Part w v → Part w (.list items)
  | field {w f fields} : f ∈ fields → Part w f.2 → Part w (.map fields)

/-- Whether all parts of a value are so. -/
def Every (P : Value → Prop) (v : Value) : Prop := ∀ w, Part w v → P w

variable {P Q : Value → Prop}

theorem Every.self {v : Value} (h : Every P v) : P v := h v (.self v)

theorem Every.item {items : List Value} (h : Every P (.list items)) {v : Value} (hv : v ∈ items) :
    Every P v := fun w hw => h w (.item hv hw)

theorem Every.field {fields : Record} (h : Every P (.map fields)) {f : String × Value}
    (hf : f ∈ fields) : Every P f.2 := fun w hw => h w (.field hf hw)

theorem Every.imp {v : Value} (h : Every P v) (hpq : ∀ w, P w → Q w) : Every Q v :=
  fun w hw => hpq w (h w hw)

theorem every_leaf {v : Value} (hl : v.list? = none) (hm : v.map? = none) : Every P v ↔ P v := by
  constructor
  · exact Every.self
  · intro h w hw
    cases hw with
    | self => exact h
    | item hv hw => cases hl
    | field hf hw => cases hm

theorem every_list {items : List Value} :
    Every P (.list items) ↔ P (.list items) ∧ ∀ v ∈ items, Every P v := by
  constructor
  · intro h
    exact ⟨h.self, fun v hv => h.item hv⟩
  · rintro ⟨hp, hi⟩ w hw
    cases hw with
    | self => exact hp
    | item hv hw => exact hi _ hv w hw

theorem every_map {fields : Record} :
    Every P (.map fields) ↔ P (.map fields) ∧ ∀ f ∈ fields, Every P f.2 := by
  constructor
  · intro h
    exact ⟨h.self, fun f hf => h.field hf⟩
  · rintro ⟨hp, hi⟩ w hw
    cases hw with
    | self => exact hp
    | field hf hw => exact hi _ hf w hw

/-- Items that are left as they are stay as they are. -/
theorem map_items_eq_self_iff {α : Type} {g : α → α} {items : List α} :
    items.map g = items ↔ ∀ v ∈ items, g v = v := by
  calc
    items.map g = items ↔ items.map g = items.map id := by rw [List.map_id]
    _ ↔ ∀ v ∈ items, g v = v := List.map_inj_left

/-- Lists and maps stand in one another at most so many levels deep. -/
def Within : Nat → Value → Prop
  | 0, .list _ | 0, .map _ => False
  | levels + 1, .list items => ∀ v ∈ items, Within levels v
  | levels + 1, .map fields => ∀ f ∈ fields, Within levels f.2
  | _, _ => True

end TrieFeed.Value
