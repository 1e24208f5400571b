import Mathlib.Data.List.Induction
import TrieFeed.App.Settings
import TrieFeed.Proofs.Fields
import TrieFeed.Proofs.Text.Occurrence
/-!
# Layers of settings

Tables and environment variables are laid over each other in the order in which they are added. A
setting of a provider resolves to what was saved for it, or else to what was written to it last, or
else to its default, whatever was written for other providers.
-/
namespace TrieFeed

open Resolver

inductive Layer where
  | table (provider : String) (settings : Record)
  | environment (names : List String) (vars : List (String × String))

/-- A value given to a setting of a provider. -/
structure Write where
  provider : String
  name : String
  value : Value

/-- A variable is for the name with the longest start that it has, and of equally long ones for the
last. What follows the start is left. -/
def Attributed (names : List String) (varName name : String) (rest : List Char) : Prop :=
  varName.toList = (envStart name).toList ++ rest ∧
  ∃ i : Nat, names[i]? = some name ∧ ∀ (j : Nat) (other : String), names[j]? = some other →
    (envStart other).toList <+: varName.toList →
      (envStart other).length ≤ (envStart name).length ∧
      (i < j → (envStart other).length < (envStart name).length)

/-- What a variable writes, if it is for a provider and names a setting. -/
def variableWrite? (names : List String) (var : String × String) : Option Write :=
  match envMatch? names var.1 with
  | some (name, c :: cs) => some ⟨name, Text.asciiLower (.ofList (c :: cs)), .text var.2⟩
  | _ => none

namespace Layer

def add (r : Resolver) : Layer → Resolver
  | .table provider settings => r.withStatic provider settings
  | .environment names vars => r.withEnv names vars

def writes : Layer → List Write
  | .table provider settings => settings.map fun (name, value) => ⟨provider, name, value⟩
  | .environment names vars => vars.filterMap (variableWrite? names)

end Layer

/-- The resolver of layers, with what is saved if a store is attached. -/
def layered (layers : List Layer) (saved : Option SavedSettings) : Resolver :=
  { layers.foldl Layer.add .empty with saved }

def allWrites (layers : List Layer) : List Write := layers.flatMap Layer.writes

/-- The settings written for a provider, in order. -/
def written (provider : String) (writes : List Write) : Record :=
  (writes.filter (·.provider = provider)).map fun w => (w.name, w.value)

/-- The value that was written to a setting of a provider last. -/
def lastWrite? (provider name : String) (writes : List Write) : Option Value :=
  ((writes.filter fun w => w.provider = provider ∧ w.name = name).getLast?).map (·.value)

/-! ## Whom a variable is for -/

theorem envMatch?_snoc (names : List String) (name varName : String) :
    envMatch? (names ++ [name]) varName =
      match Text.after? (envStart name).toList varName.toList, envMatch? names varName with
      | none, best => best
      | some rest, none => some (name, rest)
      | some rest, some (other, shorter) =>
        if rest.length ≤ shorter.length then some (name, rest) else some (other, shorter) := by
  rw [envMatch?, List.foldl_append]
  change (match Text.after? _ _, envMatch? names varName with
    | none, _ => envMatch? names varName
    | some rest, none => some (name, rest)
    | some rest, some (_, shorter) =>
      if rest.length ≤ shorter.length then some (name, rest) else envMatch? names varName) = _
  cases Text.after? (envStart name).toList varName.toList with
  | none => rfl
  | some rest => cases envMatch? names varName <;> rfl

theorem Attributed.unique {names : List String} {varName name other : String}
    {rest more : List Char} (h : Attributed names varName name rest)
    (ho : Attributed names varName other more) : name = other ∧ rest = more := by
  obtain ⟨hr, i, hi, hall⟩ := h
  obtain ⟨hm, j, hj, hothers⟩ := ho
  obtain ⟨hle, hlt⟩ := hall j other hj ⟨more, hm.symm⟩
  obtain ⟨hge, hgt⟩ := hothers i name hi ⟨rest, hr.symm⟩
  have hij : i = j := by
    rcases Nat.lt_trichotomy i j with h | h | h
    · have := hlt h
      omega
    · exact h
    · have := hgt h
      omega
  subst hij
  have hn : name = other := Option.some.inj (hi.symm.trans hj)
  subst hn
  exact ⟨rfl, List.append_cancel_left (hr.symm.trans hm)⟩

/-- The last of the names that is matched keeps what was found before, or takes its place. -/
theorem attributed_snoc {names : List String} {varName last name : String} {rest : List Char}
    (h : Attributed names varName name rest)
    (hl : (envStart last).toList <+: varName.toList →
      (envStart last).length < (envStart name).length) :
    Attributed (names ++ [last]) varName name rest := by
  obtain ⟨hr, i, hi, hall⟩ := h
  have hlt : i < names.length := (List.getElem?_eq_some_iff.mp hi).1
  refine ⟨hr, i, by rw [List.getElem?_append_left hlt, hi], fun j other hj hp => ?_⟩
  by_cases hjn : j < names.length
  · rw [List.getElem?_append_left hjn] at hj
    exact hall j other hj hp
  · have ho : other = last := by
      have hm : other ∈ [last] := by
        rw [List.getElem?_append_right (by omega)] at hj
        exact List.mem_of_getElem? hj
      exact List.mem_singleton.mp hm
    subst ho
    exact ⟨Nat.le_of_lt (hl hp), fun _ => hl hp⟩

theorem attributed_last {names : List String} {varName last : String} {rest : List Char}
    (h : varName.toList = (envStart last).toList ++ rest)
    (hall : ∀ other ∈ names, (envStart other).toList <+: varName.toList →
      (envStart other).length ≤ (envStart last).length) :
    Attributed (names ++ [last]) varName last rest := by
  refine ⟨h, names.length, by simp, fun j other hj hp => ?_⟩
  have hlt : j < (names ++ [last]).length := (List.getElem?_eq_some_iff.mp hj).1
  rw [List.length_append, List.length_singleton] at hlt
  refine ⟨?_, fun hn => by omega⟩
  rcases List.mem_append.mp (List.mem_of_getElem? hj) with hm | hm
  · exact hall other hm hp
  · have ho : other = last := List.mem_singleton.mp hm
    exact Nat.le_of_eq (congrArg (fun name => (envStart name).length) ho)

/-- What is found is what the variable is for, and where nothing is found no start fits. -/
theorem envMatch?_sound (names : List String) (varName : String) :
    (∀ name rest, envMatch? names varName = some (name, rest) →
      Attributed names varName name rest) ∧
    (envMatch? names varName = none →
      ∀ name ∈ names, ¬(envStart name).toList <+: varName.toList) := by
  induction names using List.reverseRecOn with
  | nil => exact ⟨nofun, nofun⟩
  | append_singleton names last ih =>
    obtain ⟨ihSome, ihNone⟩ := ih
    rw [envMatch?_snoc]
    cases ha : Text.after? (envStart last).toList varName.toList with
    | none =>
      have hl : ¬(envStart last).toList <+: varName.toList := by
        rw [← Text.isSome_after?, ha]
        exact Bool.false_ne_true
      constructor
      · intro name rest h
        exact attributed_snoc (ihSome name rest h) fun hp => absurd hp hl
      · intro h name hm
        rcases List.mem_append.mp hm with hm | hm
        · exact ihNone h name hm
        · rw [List.mem_singleton.mp hm]
          exact hl
    | some found =>
      have hv := Text.after?_eq_some.mp ha
      cases hb : envMatch? names varName with
      | none =>
        refine ⟨fun name rest h => ?_, nofun⟩
        cases h
        exact attributed_last hv fun other hm hp => absurd hp (ihNone hb other hm)
      | some best =>
        obtain ⟨owner, shorter⟩ := best
        have hat := ihSome owner shorter hb
        -- All starts are starts of the one name, so the longer start leaves the shorter rest.
        have hlen : (envStart last).length + found.length =
            (envStart owner).length + shorter.length := by
          have h := congrArg List.length (hv.symm.trans hat.1)
          rwa [List.length_append, List.length_append, String.length_toList,
            String.length_toList] at h
        dsimp only
        split
        · rename_i hle
          refine ⟨fun name rest h => ?_, nofun⟩
          cases h
          refine attributed_last hv fun other hm hp => ?_
          obtain ⟨-, i, -, hall⟩ := hat
          obtain ⟨j, hj⟩ := List.getElem?_of_mem hm
          have := (hall j other hj hp).1
          omega
        · rename_i hgt
          refine ⟨fun name rest h => ?_, nofun⟩
          cases h
          exact attributed_snoc hat fun _ => by omega

theorem envMatch?_eq_some_iff {names : List String} {varName name : String} {rest : List Char} :
    envMatch? names varName = some (name, rest) ↔ Attributed names varName name rest := by
  refine ⟨(envMatch?_sound names varName).1 name rest, fun h => ?_⟩
  cases hm : envMatch? names varName with
  | none =>
    obtain ⟨hr, i, hi, -⟩ := h
    exact absurd ⟨rest, hr.symm⟩
      ((envMatch?_sound names varName).2 hm name (List.mem_of_getElem? hi))
  | some found =>
    obtain ⟨hn, hr⟩ := h.unique ((envMatch?_sound names varName).1 found.1 found.2 hm)
    rw [hn, hr]

theorem variableWrite?_eq_some_iff {names : List String} {var : String × String} {w : Write} :
    variableWrite? names var = some w ↔ ∃ rest, Attributed names var.1 w.provider rest ∧
      rest ≠ [] ∧ w.name = Text.asciiLower (.ofList rest) ∧ w.value = .text var.2 := by
  obtain ⟨provider, name, value⟩ := w
  simp only [← envMatch?_eq_some_iff]
  rw [variableWrite?]
  constructor
  · intro h
    split at h
    · rename_i hm
      cases h
      exact ⟨_, hm, List.cons_ne_nil _ _, rfl, rfl⟩
    · cases h
  · rintro ⟨rest, hm, hne, hn, hv⟩
    obtain ⟨c, cs, rfl⟩ := List.exists_cons_of_ne_nil hne
    rw [hm]
    exact congrArg some (by rw [hn, hv])

/-! ## What layers amount to -/

theorem staticFor_withStatic (provider other : String) (settings : Record) (r : Resolver) :
    (r.withStatic other settings).staticFor provider =
      if other = provider then Fields.merge (r.staticFor provider) settings
      else r.staticFor provider := by
  rw [withStatic, staticFor]
  by_cases h : other = provider
  · subst h
    rw [if_pos rfl, Fields.get?_insert_self]
    rfl
  · rw [if_neg h, Fields.get?_insert_of_ne h]
    rfl

theorem written_append (provider : String) (ws more : List Write) :
    written provider (ws ++ more) = written provider ws ++ written provider more := by
  rw [written, List.filter_append, List.map_append]
  rfl

theorem written_table (provider other : String) (settings : Record) :
    written provider (Layer.table other settings).writes =
      if other = provider then settings else [] := by
  rw [written, Layer.writes]
  induction settings with
  | nil => split <;> rfl
  | cons field rest ih =>
    by_cases h : other = provider
    · rw [if_pos h] at ih ⊢
      rw [List.map_cons, List.filter_cons_of_pos (by simpa using h), List.map_cons, ih]
    · rw [if_neg h] at ih ⊢
      rw [List.map_cons, List.filter_cons_of_neg (by simpa using h), ih]

theorem withVariable_eq (names : List String) (r : Resolver) (var : String × String) :
    withVariable names r var = (variableWrite? names var).elim r fun w =>
      r.withStatic w.provider [(w.name, w.value)] := by
  rw [withVariable, variableWrite?]
  cases envMatch? names var.1 with
  | none => rfl
  | some found =>
    obtain ⟨name, rest⟩ := found
    cases rest <;> rfl

theorem staticFor_withVariable (provider : String) (names : List String) (r : Resolver)
    (var : String × String) :
    (withVariable names r var).staticFor provider =
      Fields.merge (r.staticFor provider) (written provider (variableWrite? names var).toList) := by
  rw [withVariable_eq]
  cases variableWrite? names var with
  | none => rfl
  | some w =>
    have hw : written provider [w] = if w.provider = provider then [(w.name, w.value)] else [] :=
      written_table provider w.provider [(w.name, w.value)]
    rw [Option.elim_some, staticFor_withStatic, Option.toList_some, hw]
    split <;> rfl

/-- One layer adds what it writes to the static layer of each provider. -/
theorem staticFor_add (provider : String) (r : Resolver) (layer : Layer) :
    (layer.add r).staticFor provider =
      Fields.merge (r.staticFor provider) (written provider layer.writes) := by
  cases layer with
  | table other settings =>
    rw [Layer.add, staticFor_withStatic, written_table]
    split <;> rfl
  | environment names vars =>
    rw [Layer.add, withEnv, Layer.writes]
    induction vars generalizing r with
    | nil => rfl
    | cons var rest ih =>
      rw [List.foldl_cons, ih, staticFor_withVariable, ← Fields.merge_append, ← written_append,
        List.filterMap_cons]
      cases variableWrite? names var <;> rfl

theorem staticFor_layered (provider : String) (layers : List Layer)
    (saved : Option SavedSettings) :
    (layered layers saved).staticFor provider =
      Fields.merge [] (written provider (allWrites layers)) := by
  have hfold (r : Resolver) : (layers.foldl Layer.add r).staticFor provider =
      Fields.merge (r.staticFor provider) (written provider (allWrites layers)) := by
    induction layers generalizing r with
    | nil => rfl
    | cons layer rest ih =>
      rw [List.foldl_cons, ih, staticFor_add, ← Fields.merge_append, ← written_append]
      rfl
  exact hfold .empty

theorem lastWrite?_snoc (provider name : String) (ws : List Write) (w : Write) :
    lastWrite? provider name (ws ++ [w]) =
      if w.provider = provider ∧ w.name = name then some w.value
      else lastWrite? provider name ws := by
  rw [lastWrite?, List.filter_append]
  by_cases h : w.provider = provider ∧ w.name = name
  · rw [if_pos h, List.filter_cons_of_pos (by simpa using h), List.filter_nil,
      List.getLast?_concat]
    rfl
  · rw [if_neg h, List.filter_cons_of_neg (by simpa using h), List.filter_nil, List.append_nil]
    rfl

/-- Of what is written to a setting, the last value counts. -/
theorem get?_merge_written (provider name : String) (ws : List Write) (base : Record) :
    Fields.get? name (Fields.merge base (written provider ws)) =
      (lastWrite? provider name ws).or (Fields.get? name base) := by
  induction ws using List.reverseRecOn with
  | nil => rfl
  | append_singleton ws w ih =>
    have hw : written provider [w] = if w.provider = provider then [(w.name, w.value)] else [] :=
      written_table provider w.provider [(w.name, w.value)]
    rw [written_append, Fields.merge_append, hw, lastWrite?_snoc]
    by_cases hp : w.provider = provider
    · by_cases hn : w.name = name
      · subst hn
        rw [if_pos hp, if_pos ⟨hp, rfl⟩]
        exact Fields.get?_insert_self ..
      · rw [if_pos hp, if_neg fun h => hn h.2, ← ih]
        exact Fields.get?_insert_of_ne hn ..
    · rw [if_neg hp, if_neg fun h => hp h.1, ← ih]
      rfl

/-- What is saved for a provider, if a store is attached at all. -/
def savedLayer (provider : String) (saved : Option SavedSettings) : Record :=
  saved.elim [] (SavedSettings.load provider)

theorem resolve_layered (provider : String) (defaults : Record) (layers : List Layer)
    (saved : Option SavedSettings) :
    (layered layers saved).resolve provider defaults =
      Fields.merge (Fields.merge defaults (Fields.merge [] (written provider (allWrites layers))))
        (savedLayer provider saved) := by
  rw [resolve, staticFor_layered]
  cases saved <;> rfl

theorem hasExplicit_iff (provider : String) (r : Resolver) :
    r.hasExplicit provider ↔ r.resolve provider [] ≠ [] := by
  rw [resolve, Ne, Fields.merge_eq_nil_iff, Fields.merge_eq_nil_iff, hasExplicit, Bool.or_eq_true,
    Bool.not_eq_true', Bool.not_eq_true', List.isEmpty_eq_false_iff, List.isEmpty_eq_false_iff,
    not_and_or, not_and_or]
  simp

theorem saved_add (r : Resolver) (layer : Layer) : (layer.add r).saved = r.saved := by
  cases layer with
  | table provider settings => rfl
  | environment names vars =>
    rw [Layer.add, withEnv]
    induction vars generalizing r with
    | nil => rfl
    | cons var rest ih =>
      rw [List.foldl_cons, ih, withVariable_eq]
      cases variableWrite? names var <;> rfl

theorem layered_none (layers : List Layer) :
    layered layers none = layers.foldl Layer.add .empty := by
  have hs (r : Resolver) : (layers.foldl Layer.add r).saved = r.saved := by
    induction layers generalizing r with
    | nil => rfl
    | cons layer rest ih => rw [List.foldl_cons, ih, saved_add]
  have he : (layers.foldl Layer.add .empty).saved = none := hs .empty
  rw [layered, ← he]

/-- The resolver of the application has the tables of its document as layers, and then the
environment. -/
theorem resolver_layered (s : App.Settings) (names : List String)
    (vars : List (String × String)) :
    s.resolver names vars =
      layered ((s.providers.map fun field => .table field.1 field.2) ++
        [.environment (names ++ (Fields.names s.providers).filter fun name =>
          !names.contains name) vars]) none := by
  rw [layered_none, List.foldl_append, List.foldl_map]
  rfl

/-- A variable is for one of the names at most, by the longest start. A setting resolves to what is
saved, or else to what was written to it last, or else to its default; what is written or saved for
others has no part in it. Something is explicit exactly if the layers without defaults come to
anything. -/
theorem layers_resolve (layers : List Layer) {saved : Option SavedSettings}
    (hs : ∀ provider, Fields.Distinct (savedLayer provider saved)) :
    (∀ names var w, variableWrite? names var = some w ↔
      ∃ rest, Attributed names var.1 w.provider rest ∧ rest ≠ [] ∧
        w.name = Text.asciiLower (.ofList rest) ∧ w.value = .text var.2) ∧
    (∀ provider defaults name,
      Fields.get? name ((layered layers saved).resolve provider defaults) =
        ((Fields.get? name (savedLayer provider saved)).or
          (lastWrite? provider name (allWrites layers))).or (Fields.get? name defaults)) ∧
    (∀ provider defaults others store,
      written provider (allWrites others) = written provider (allWrites layers) →
      savedLayer provider store = savedLayer provider saved →
      (layered others store).resolve provider defaults =
        (layered layers saved).resolve provider defaults) ∧
    ∀ provider, (layered layers saved).hasExplicit provider ↔
      (layered layers saved).resolve provider [] ≠ [] := by
  refine ⟨fun _ _ _ => variableWrite?_eq_some_iff, ?_, ?_, fun provider => hasExplicit_iff ..⟩
  · intro provider defaults name
    have hn : Fields.Distinct ([] : Record) := List.nodup_nil
    have hd := hn.merge (written provider (allWrites layers))
    rw [resolve_layered, Fields.get?_merge (hs provider), Fields.get?_merge hd,
      get?_merge_written, Fields.get?, Option.or_none, Option.or_assoc]
  · intro provider defaults others store hw hl
    rw [resolve_layered, resolve_layered, hw, hl]

/-- Variables of two providers, the start of one being a start of the other's, over a table. -/
def poolLayers : List Layer :=
  [.table "pool" [("url", .text "a"), ("limit", .int 5)],
    .environment ["pool-stats", "pool", "pool.stats"]
      [("DATAPROVER_PROVIDER_POOL_STATS_URL", "b"), ("DATAPROVER_PROVIDER_POOL_URL", "c"),
        ("DATAPROVER_PROVIDER_POOL_STATS_", "d"), ("UNRELATED", "e")]]

def poolStore : Option SavedSettings := some [("pool", [("limit", .int 7)])]

theorem poolStore_distinct (provider : String) : Fields.Distinct (savedLayer provider poolStore) := by
  rw [savedLayer, poolStore, Option.elim_some, SavedSettings.load, Fields.get?]
  split
  · exact List.nodup_singleton _
  · exact List.nodup_nil

theorem layers_resolve_pools :
    (∀ provider, Fields.Distinct (savedLayer provider poolStore)) ∧
    (Fields.get? "url" ((layered poolLayers poolStore).resolve "pool" [("url", .text "z")]) =
      some (.text "c")) ∧
    (Fields.get? "url" ((layered poolLayers poolStore).resolve "pool.stats" []) =
      some (.text "b")) ∧
    (layered poolLayers poolStore).resolve "pool-stats" [] = [] ∧
    (Fields.get? "limit" ((layered poolLayers poolStore).resolve "pool" []) =
      some (.int 7)) := by
  obtain ⟨-, hr, -, he⟩ := layers_resolve poolLayers poolStore_distinct
  refine ⟨poolStore_distinct, (hr ..).trans ?_, (hr ..).trans ?_, ?_, (hr ..).trans ?_⟩
  · rfl
  · rfl
  · exact not_not.mp fun h => absurd ((he "pool-stats").mpr h) (by decide)
  · rfl

end TrieFeed
