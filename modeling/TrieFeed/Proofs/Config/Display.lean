import TrieFeed.Config.Resolver
import TrieFeed.Proofs.Fields
/-!
# Settings that are shown and saved back

Display shows a mask for each secret that is set. When what it shows is saved, the masked secrets
stay in the layers they come from, all other settings go to the saved layer, and the settings in
force are those of before. No save puts a mask in the place of a secret.
-/
namespace TrieFeed

open Resolver

/-- Whether display hides a setting. -/
def isHidden (schema : Schema) (name : String) (value : Value) : Bool :=
  schema.secrets.contains name && !value.isNull

/-- The settings that display shows as they are. -/
def unhidden (schema : Schema) (settings : Record) : Record :=
  settings.filter fun (name, value) => !isHidden schema name value

/-- What is saved for each provider has no mask for a secret. -/
def MaskFree (schema : Schema) (saved : SavedSettings) : Prop :=
  ∀ provider, ∀ name ∈ schema.secrets, (name, .text mask) ∉ SavedSettings.load provider saved

variable {schema : Schema} {provider : String} {r : Resolver} {saved : SavedSettings}

theorem isMasked_mask {name : String} (h : name ∈ schema.secrets) :
    isMasked schema name (.text mask) = true := by
  rw [isMasked, List.contains_iff_mem.mpr h]
  rfl

/-- A mask is not null, so it is hidden where it stands for a secret. -/
theorem isHidden_of_isMasked {name : String} {value : Value} (h : isMasked schema name value) :
    isHidden schema name value := by
  rw [isMasked, Bool.and_eq_true] at h
  obtain ⟨hs, hv⟩ := h
  rw [isHidden, hs]
  cases value with
  | text s => rfl
  | _ => cases hv

theorem not_isMasked_of_not_isHidden {name : String} {value : Value}
    (h : isHidden schema name value = false) : isMasked schema name value = false := by
  rw [← Bool.not_eq_true] at h ⊢
  exact fun hm => h (isHidden_of_isMasked hm)

/-- Of the settings that display shows, a save takes those that it shows as they are. -/
theorem filter_maskSecrets (settings : Record) :
    (maskSecrets settings schema).filter (fun (name, value) => !isMasked schema name value) =
      unhidden schema settings := by
  rw [unhidden]
  induction settings with
  | nil => rfl
  | cons field rest ih =>
    obtain ⟨name, value⟩ := field
    have hc : maskSecrets ((name, value) :: rest) schema =
        (name, if isHidden schema name value then .text mask else value) ::
          maskSecrets rest schema := rfl
    rw [hc]
    by_cases hh : isHidden schema name value = true
    · have hs : name ∈ schema.secrets := by
        rw [isHidden, Bool.and_eq_true] at hh
        exact List.contains_iff_mem.mp hh.1
      rw [if_pos hh, List.filter_cons_of_neg (by simp [isMasked_mask hs]), ih,
        List.filter_cons_of_neg (by simp [hh])]
    · rw [Bool.not_eq_true] at hh
      rw [hh, if_neg Bool.false_ne_true,
        List.filter_cons_of_pos (by simp [not_isMasked_of_not_isHidden hh]), ih,
        List.filter_cons_of_pos (by simp [hh])]

theorem updated_maskSecrets (layer settings : Record) :
    updated schema layer (maskSecrets settings schema) =
      Fields.merge layer (unhidden schema settings) := by
  rw [updated, filter_maskSecrets]

/-! ## One save -/

theorem save_eq (h : r.saved = some saved) (update : Record) :
    r.save provider update schema =
      (.ok (updated schema (SavedSettings.load provider saved) update),
        { r with saved := some (SavedSettings.replace provider
          (updated schema (SavedSettings.load provider saved) update) saved) }) := by
  rw [save, h]

theorem resolve_eq (h : r.saved = some saved) (defaults : Record) :
    r.resolve provider defaults = Fields.merge (Fields.merge defaults (r.staticFor provider))
      (SavedSettings.load provider saved) := by
  rw [resolve, savedFor?, h]
  rfl

/-- Settings that are in force already can be saved. -/
theorem resolve_replace_merge {defaults update : Record} (h : r.saved = some saved)
    (hd : Fields.Distinct (SavedSettings.load provider saved))
    (hu : ∀ field ∈ update, Fields.get? field.1 (r.resolve provider defaults) = some field.2) :
    { r with saved := some (SavedSettings.replace provider
        (Fields.merge (SavedSettings.load provider saved) update) saved) }.resolve provider
          defaults = r.resolve provider defaults := by
  rw [resolve_eq rfl, SavedSettings.load_replace_self]
  rw [resolve_eq h] at hu ⊢
  exact Fields.merge_merge hd hu

/-! ## Sequences of saves -/

/-- Saves updates one after another, each for its provider. -/
def saveAll (schema : Schema) (updates : List (String × Record)) (r : Resolver) : Resolver :=
  updates.foldl (fun r (provider, update) => (r.save provider update schema).2) r

theorem updated_maskFree {layer update : Record} {name : String} (hn : name ∈ schema.secrets)
    (h : (name, .text mask) ∉ layer) : (name, .text mask) ∉ updated schema layer update := by
  intro hm
  rcases Fields.mem_merge hm with hm | hm
  · exact h hm
  · have hf : (!isMasked schema name (.text mask)) = true := (List.mem_filter.mp hm).2
    rw [isMasked_mask hn] at hf
    cases hf

theorem MaskFree.replace (h : MaskFree schema saved) (provider : String) (update : Record) :
    MaskFree schema (SavedSettings.replace provider
      (updated schema (SavedSettings.load provider saved) update) saved) := by
  intro other name hn
  by_cases ho : provider = other
  · subst ho
    rw [SavedSettings.load_replace_self]
    exact updated_maskFree hn (h provider name hn)
  · rw [SavedSettings.load_replace_of_ne ho]
    exact h other name hn

/-- The layer stays attached, and free of masks. -/
theorem saveAll_maskFree (hs : r.saved = some saved) (h : MaskFree schema saved)
    (updates : List (String × Record)) :
    ∃ after, (saveAll schema updates r).saved = some after ∧ MaskFree schema after := by
  induction updates generalizing r saved with
  | nil => exact ⟨saved, hs, h⟩
  | cons update rest ih =>
    have hc : saveAll schema (update :: rest) r =
        saveAll schema rest (r.save update.1 update.2 schema).2 := rfl
    rw [hc, save_eq hs]
    exact ih rfl (h.replace update.1 update.2)

/-- Saving the settings that are displayed succeeds. It takes those that display does not hide into
the saved layer and leaves all others there as they are, and the settings in force stay the same, in
the same order. However many updates are saved by one schema, no secret of any provider holds the
mask in the saved layer if none did before. -/
theorem displayed_saved_back {defaults : Record} (hd : Fields.Distinct defaults)
    (h : r.saved = some saved) (hs : Fields.Distinct (SavedSettings.load provider saved))
    (schema : Schema) :
    let displayed := maskSecrets (r.resolve provider defaults) schema
    (∃ settings, (r.save provider displayed schema).1 = .ok settings ∧
      (r.save provider displayed schema).2.savedFor? provider = some settings ∧
      ∀ name, Fields.get? name settings =
        (Fields.get? name (unhidden schema (r.resolve provider defaults))).or
          (Fields.get? name (SavedSettings.load provider saved))) ∧
    (r.save provider displayed schema).2.resolve provider defaults = r.resolve provider defaults ∧
    (MaskFree schema saved → ∀ updates : List (String × Record),
      ∃ after, (saveAll schema updates r).saved = some after ∧ MaskFree schema after) := by
  intro displayed
  have hr : Fields.Distinct (r.resolve provider defaults) := by
    rw [resolve_eq h]
    exact (hd.merge _).merge _
  have he : r.save provider displayed schema = _ := save_eq h displayed
  rw [updated_maskSecrets] at he
  rw [he]
  refine ⟨⟨_, rfl, ?_, ?_⟩, ?_, saveAll_maskFree h⟩
  · exact Fields.get?_insert_self ..
  · intro name
    exact Fields.get?_merge (hr.filter _) ..
  · apply resolve_replace_merge h hs
    intro field hf
    exact Fields.get?_of_mem hr (List.mem_of_mem_filter hf)

/-- A form with two secrets. -/
def guardedForm : Schema :=
  ⟨["password", "token"].map fun name => ⟨name, name, .password, false, none, none, none, none, []⟩⟩

/-- One of the secrets comes from the static layer, and the other is saved as null. -/
def guarded : Resolver where
  layers := [("p", [("password", .text "hunter2"), ("user", .text "u")])]
  saved := some [("p", [("token", .null)])]

theorem guarded_maskFree : MaskFree guardedForm [("p", [("token", .null)])] := by
  intro provider name _ hm
  rw [SavedSettings.load, Fields.get?] at hm
  split at hm
  · cases hm with
    | tail _ h => cases h
  · cases hm

theorem displayed_saved_back_guarded :
    Fields.Distinct [("url", Value.text "x")] ∧
    guarded.saved = some [("p", [("token", .null)])] ∧
    Fields.Distinct (SavedSettings.load "p" [("p", [("token", .null)])]) ∧
    MaskFree guardedForm [("p", [("token", .null)])] ∧
    guarded.resolve "p" [("url", .text "x")] = [("url", .text "x"), ("password", .text "hunter2"),
      ("user", .text "u"), ("token", .null)] ∧
    (guarded.save "p" [("url", .text "x"), ("password", .text mask), ("user", .text "u"),
      ("token", .null)] guardedForm).2.resolve "p" [("url", .text "x")] =
        guarded.resolve "p" [("url", .text "x")] ∧
    ∃ after, (saveAll guardedForm [("p", [("password", .text mask)]), ("q", [("token", .text mask)])]
      guarded).saved = some after ∧ MaskFree guardedForm after := by
  have hd : Fields.Distinct [("url", Value.text "x")] := List.nodup_singleton _
  have hs : Fields.Distinct (SavedSettings.load "p" [("p", [("token", .null)])]) :=
    List.nodup_singleton _
  obtain ⟨-, hr, hm⟩ := displayed_saved_back (r := guarded) hd rfl hs guardedForm
  exact ⟨hd, rfl, hs, guarded_maskFree, rfl, hr, hm guarded_maskFree _⟩

end TrieFeed
