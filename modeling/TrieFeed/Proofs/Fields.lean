import Mathlib.Data.List.Nodup
import TrieFeed.Fields
/-!
# Laws of named fields

What operations on fields do to the value under a name, and that names stay different.
-/
namespace TrieFeed.Fields

variable {α β : Type} {name other : String}

/-- No two fields have one name. -/
def Distinct (fields : Fields α) : Prop := (names fields).Nodup

theorem mem_insert {value : α} {fields : Fields α} {field : String × α}
    (h : field ∈ insert name value fields) : field = (name, value) ∨ field ∈ fields := by
  induction fields with
  | nil => exact .inl (List.mem_singleton.mp h)
  | cons first rest ih =>
    rw [insert] at h
    split at h
    · rename_i he
      rcases List.mem_cons.mp h with h | h
      · exact .inl (he ▸ h)
      · exact .inr (List.mem_cons_of_mem _ h)
    · rcases List.mem_cons.mp h with h | h
      · exact .inr (h ▸ List.mem_cons_self)
      · exact (ih h).imp_right (List.mem_cons_of_mem _)

theorem mem_merge {fields others : Fields α} {field : String × α}
    (h : field ∈ merge fields others) : field ∈ fields ∨ field ∈ others := by
  induction others generalizing fields with
  | nil => exact .inl h
  | cons first rest ih =>
    rcases ih h with h | h
    · exact (mem_insert h).elim (fun he => .inr (he ▸ List.mem_cons_self)) .inl
    · exact .inr (List.mem_cons_of_mem _ h)

theorem mem_names_insert {value : α} {fields : Fields α}
    (h : other ∈ names (insert name value fields)) : other = name ∨ other ∈ names fields := by
  obtain ⟨field, hf, rfl⟩ := List.mem_map.mp h
  rcases mem_insert hf with rfl | hf
  · exact .inl rfl
  · exact .inr (List.mem_map_of_mem hf)

theorem Distinct.insert {fields : Fields α} (h : Distinct fields) (name : String) (value : α) :
    Distinct (insert name value fields) := by
  induction fields with
  | nil => exact List.nodup_singleton name
  | cons field rest ih =>
    obtain ⟨hm, hr⟩ := List.nodup_cons.mp h
    rw [Fields.insert]
    split
    · exact h
    · rename_i hne
      refine List.nodup_cons.mpr ⟨fun hi => ?_, ih hr⟩
      rcases mem_names_insert hi with he | hi
      · exact hne he
      · exact hm hi

theorem Distinct.filter {fields : Fields α} (h : Distinct fields) (p : String × α → Bool) :
    Distinct (List.filter p fields) :=
  List.Nodup.sublist (List.Sublist.map _ List.filter_sublist) h

theorem Distinct.erase {fields : Fields α} (h : Distinct fields) (name : String) :
    Distinct (erase name fields) :=
  h.filter _

theorem names_map (f : α → β) (fields : Fields α) :
    names (List.map (fun (key, value) => (key, f value)) fields) = names fields := by
  rw [names, List.map_map]
  rfl

/-- Fields whose values are left as they are stay as they are. -/
theorem map_values_eq_self_iff {g : α → α} {fields : Fields α} :
    (fields.map fun f => (f.1, g f.2)) = fields ↔ ∀ f ∈ fields, g f.2 = f.2 := by
  calc
    (fields.map fun f => (f.1, g f.2)) = fields ↔
        (fields.map fun f => (f.1, g f.2)) = fields.map id := by rw [List.map_id]
    _ ↔ ∀ f ∈ fields, (f.1, g f.2) = id f := List.map_inj_left
    _ ↔ ∀ f ∈ fields, g f.2 = f.2 := forall₂_congr fun f _ => by simp [Prod.ext_iff]

theorem Distinct.map {fields : Fields α} (h : Distinct fields) (f : α → β) :
    Distinct (List.map (fun (key, value) => (key, f value)) fields) := by
  rw [Distinct, names_map]
  exact h

theorem get?_eq_none {fields : Fields α} (h : name ∉ names fields) : get? name fields = none := by
  induction fields with
  | nil => rfl
  | cons field rest ih =>
    rw [names, List.map_cons, List.mem_cons, not_or] at h
    rw [get?, if_neg (Ne.symm h.1)]
    exact ih h.2

theorem mem_names_iff {fields : Fields α} :
    name ∈ names fields ↔ ∃ value, get? name fields = some value := by
  induction fields with
  | nil => exact iff_of_false List.not_mem_nil nofun
  | cons field rest ih =>
    rw [names, List.map_cons, List.mem_cons, ← names, ih, get?]
    by_cases hf : field.1 = name
    · rw [if_pos hf]
      exact iff_of_true (.inl hf.symm) ⟨field.2, rfl⟩
    · rw [if_neg hf]
      exact or_iff_right (Ne.symm hf)

/-- What is laid over fields goes before them. -/
theorem get?_merge {others : Fields α} (h : Distinct others) (name : String) (fields : Fields α) :
    get? name (merge fields others) = (get? name others).or (get? name fields) := by
  induction others generalizing fields with
  | nil => rfl
  | cons field rest ih =>
    obtain ⟨hm, hr⟩ := List.nodup_cons.mp h
    rw [merge, List.foldl_cons]
    refine (ih hr _).trans ?_
    rw [get?]
    by_cases hf : field.1 = name
    · subst hf
      rw [if_pos rfl, get?_eq_none hm, get?_insert_self]
      rfl
    · rw [if_neg hf, get?_insert_of_ne hf]

theorem get?_of_mem {fields : Fields α} (h : Distinct fields) {value : α}
    (hf : (name, value) ∈ fields) : get? name fields = some value := by
  induction fields with
  | nil => cases hf
  | cons field rest ih =>
    obtain ⟨hm, hr⟩ := List.nodup_cons.mp h
    rcases List.mem_cons.mp hf with rfl | hf
    · rw [get?, if_pos rfl]
    · have hne : field.1 ≠ name := fun he => hm (List.mem_map.mpr ⟨_, hf, he.symm⟩)
      rw [get?, if_neg hne]
      exact ih hr hf

theorem Distinct.merge {fields : Fields α} (h : Distinct fields) (others : Fields α) :
    Distinct (merge fields others) := by
  induction others generalizing fields with
  | nil => exact h
  | cons field rest ih => exact ih (h.insert field.1 field.2)

theorem insert_eq_self {fields : Fields α} {value : α} (h : get? name fields = some value) :
    insert name value fields = fields := by
  induction fields with
  | nil => cases h
  | cons field rest ih =>
    rw [get?] at h
    rw [insert]
    by_cases hf : field.1 = name
    · rw [if_pos hf] at h ⊢
      cases h
      rfl
    · rw [if_neg hf] at h ⊢
      rw [ih h]

/-- What the layers amount to can be put into the upper one. -/
theorem merge_insert {base fields : Fields α} (hd : Distinct fields) {value : α}
    (h : get? name (merge base fields) = some value) :
    merge base (insert name value fields) = merge base fields := by
  induction fields generalizing base with
  | nil => exact insert_eq_self h
  | cons field rest ih =>
    obtain ⟨hm, hr⟩ := List.nodup_cons.mp hd
    rw [insert]
    by_cases hf : field.1 = name
    · have hv : some value = some field.2 := by
        rw [← h, merge, List.foldl_cons]
        refine (get?_merge hr ..).trans ?_
        rw [get?_eq_none (hf ▸ hm), ← hf, get?_insert_self]
        rfl
      cases hv
      rw [if_pos hf]
    · rw [if_neg hf]
      exact ih hr h

theorem merge_merge {base fields others : Fields α} (hd : Distinct fields)
    (h : ∀ field ∈ others, get? field.1 (merge base fields) = some field.2) :
    merge base (merge fields others) = merge base fields := by
  induction others generalizing fields with
  | nil => rfl
  | cons field rest ih =>
    obtain ⟨hf, hrest⟩ := List.forall_mem_cons.mp h
    have hi := merge_insert hd hf
    calc merge base (merge fields (field :: rest))
        = merge base (merge (insert field.1 field.2 fields) rest) := rfl
      _ = merge base (insert field.1 field.2 fields) :=
        ih (hd.insert ..) fun other ho => hi ▸ hrest other ho
      _ = merge base fields := hi

theorem merge_append (base fields others : Fields α) :
    merge base (fields ++ others) = merge (merge base fields) others :=
  List.foldl_append

theorem insert_eq_append {value : α} {fields : Fields α} (h : name ∉ names fields) :
    insert name value fields = fields ++ [(name, value)] := by
  induction fields with
  | nil => rfl
  | cons field rest ih =>
    rw [names, List.map_cons, List.mem_cons, not_or] at h
    rw [insert, if_neg (Ne.symm h.1), ih h.2, List.cons_append]

/-- Fields under new names come after those there are. -/
theorem merge_eq_append {fields others : Fields α} (h : Distinct (fields ++ others)) :
    merge fields others = fields ++ others := by
  induction others generalizing fields with
  | nil => simp [merge]
  | cons field rest ih =>
    have hsplit : fields ++ field :: rest = fields ++ [field] ++ rest := by simp
    have hnew : field.1 ∉ names fields := by
      intro hm
      rw [Distinct, names, List.map_append] at h
      exact List.disjoint_of_nodup_append h hm (by simp)
    have hstep : merge fields (field :: rest) = merge (insert field.1 field.2 fields) rest := rfl
    rw [hstep, insert_eq_append hnew, hsplit]
    apply ih
    rwa [← hsplit]

theorem ofPairs_eq_self {pairs : List (String × α)} (h : Distinct pairs) : ofPairs pairs = pairs :=
  merge_eq_append h

theorem insert_ne_nil (name : String) (value : α) (fields : Fields α) :
    insert name value fields ≠ [] := by
  cases fields with
  | nil => exact List.cons_ne_nil _ _
  | cons field rest =>
    rw [insert]
    split <;> exact List.cons_ne_nil _ _

theorem merge_eq_nil_iff {fields others : Fields α} :
    merge fields others = [] ↔ fields = [] ∧ others = [] := by
  induction others generalizing fields with
  | nil => exact (and_iff_left rfl).symm
  | cons field rest ih =>
    have hm : merge fields (field :: rest) = merge (insert field.1 field.2 fields) rest := rfl
    rw [hm, ih]
    constructor
    · intro h
      exact absurd h.1 (insert_ne_nil _ _ _)
    · intro h
      exact absurd h.2 (List.cons_ne_nil _ _)

theorem erase_eq_self_iff {fields : Fields α} : erase name fields = fields ↔ name ∉ names fields := by
  rw [erase, List.filter_eq_self]
  constructor
  · intro h hm
    obtain ⟨field, hf, he⟩ := List.mem_map.mp hm
    exact of_decide_eq_true (h field hf) he
  · intro h field hf
    exact decide_eq_true fun he => h (List.mem_map.mpr ⟨field, hf, he⟩)

theorem get?_erase_self (name : String) (fields : Fields α) :
    get? name (erase name fields) = none := by
  induction fields with
  | nil => rfl
  | cons field rest ih =>
    by_cases h : field.1 = name
    · rw [erase, List.filter_cons_of_neg (by simpa using h)]
      exact ih
    · rw [erase, List.filter_cons_of_pos (by simpa using h), get?, if_neg h]
      exact ih

theorem get?_erase_of_ne (h : name ≠ other) (fields : Fields α) :
    get? other (erase name fields) = get? other fields := by
  induction fields with
  | nil => rfl
  | cons field rest ih =>
    rw [erase]
    by_cases hf : field.1 = name
    · have ho : ¬field.1 = other := fun he => h (hf.symm.trans he)
      rw [List.filter_cons_of_neg (by simpa using hf), get?, if_neg ho]
      exact ih
    · rw [List.filter_cons_of_pos (by simpa using hf), get?, get?]
      by_cases ho : field.1 = other
      · rw [if_pos ho, if_pos ho]
      · rw [if_neg ho, if_neg ho]
        exact ih

theorem get?_map (f : α → β) (name : String) (fields : Fields α) :
    get? name (List.map (fun (key, value) => (key, f value)) fields) =
      (get? name fields).map f := by
  induction fields with
  | nil => rfl
  | cons field rest ih =>
    rw [List.map_cons, get?, get?]
    by_cases h : field.1 = name
    · rw [if_pos h, if_pos h]
      rfl
    · rw [if_neg h, if_neg h]
      exact ih

theorem map_insert (f : α → β) (name : String) (value : α) (fields : Fields α) :
    List.map (fun (key, value) => (key, f value)) (insert name value fields) =
      insert name (f value) (List.map (fun (key, value) => (key, f value)) fields) := by
  induction fields with
  | nil => rfl
  | cons field rest ih =>
    rw [insert, List.map_cons, insert]
    by_cases h : field.1 = name
    · rw [if_pos h, if_pos h]
      rfl
    · rw [if_neg h, if_neg h, List.map_cons, ih]

theorem map_erase (f : α → β) (name : String) (fields : Fields α) :
    List.map (fun (key, value) => (key, f value)) (erase name fields) =
      erase name (List.map (fun (key, value) => (key, f value)) fields) := by
  rw [erase, erase, List.filter_map]
  rfl

theorem map_sorted (f : α → β) (fields : Fields α) :
    List.map (fun (key, value) => (key, f value)) (sorted fields) =
      sorted (List.map (fun (key, value) => (key, f value)) fields) :=
  List.map_mergeSort fun _ _ _ _ => rfl

/-- Under different names, a name is counted once if its value counts. -/
theorem Distinct.countP {fields : Fields α} (h : Distinct fields) (name : String) (p : α → Bool) :
    List.countP (fun field => field.1 = name && p field.2) fields =
      if (get? name fields).any p then 1 else 0 := by
  induction fields with
  | nil => rfl
  | cons field rest ih =>
    obtain ⟨hm, hr⟩ := List.nodup_cons.mp h
    rw [List.countP_cons, get?]
    by_cases hf : field.1 = name
    · -- The name is not among the others, so nothing counts there.
      have hz : List.countP (fun field => field.1 = name && p field.2) rest = 0 := by
        rw [List.countP_eq_zero]
        intro other ho
        have hne : other.1 ≠ name := by
          intro he
          exact hm (List.mem_map.mpr ⟨other, ho, he.trans hf.symm⟩)
        simp [hne]
      rw [if_pos hf, hz]
      simp [hf]
    · rw [if_neg hf, ih hr]
      simp [hf]

theorem sorted_perm (fields : Fields α) : (sorted fields).Perm fields :=
  List.mergeSort_perm _ _

end TrieFeed.Fields
