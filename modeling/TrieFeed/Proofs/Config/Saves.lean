import Mathlib.Data.List.Permutation
import Mathlib.Logic.Function.Basic
import TrieFeed.Config.Resolver
import TrieFeed.Proofs.Fields
/-!
# Saves that run side by side

A save takes two steps on the store: it loads what is saved for its provider, and then replaces it.
Between the two, other saves may take theirs. A setting stays as long as every save that follows
loads it, while a save that loaded before brings back what it loaded.
-/
namespace TrieFeed

open Resolver

structure Update where
  provider : String
  settings : Record
  schema : Schema
  distinct : Fields.Distinct settings

/-- What an update sets: all but the masks that stand for secrets. -/
def Update.sets (u : Update) : Record :=
  u.settings.filter fun (name, value) => !isMasked u.schema name value

inductive SaveStage where
  | started
  | loaded (settings : Record)
  | returned (settings : Record)

/-- A store, and saves on their way. -/
structure Saves (ι : Type) where
  saved : SavedSettings
  stage : ι → SaveStage

namespace Saves

/-! ## Orders of the steps of two saves -/

/-- One of two saves takes both of its steps before the other takes its first. -/
def Serial {ι : Type} (i j : ι) (order : List ι) : Prop := [i, i] <+: order ∨ [j, j] <+: order

theorem not_serial {ι : Type} {x y : ι} (hxy : x ≠ y) (rest : List ι) :
    ¬Serial x y (x :: y :: rest) := by
  rintro (h | h)
  · exact hxy (List.cons_prefix_cons.mp (List.cons_prefix_cons.mp h).2).1
  · exact hxy (List.cons_prefix_cons.mp h).1.symm

theorem perm_cons_pair {α : Type} {a b : α} {l : List α} (h : l.Perm [a, b, b]) :
    l = [a, b, b] ∨ l = [b, a, b] ∨ l = [b, b, a] := by
  obtain ⟨s, t, rfl⟩ := List.append_of_mem (h.symm.subset List.mem_cons_self)
  have hp : (s ++ t).Perm (List.replicate 2 b) := (List.perm_middle.symm.trans h).cons_inv
  have he : s ++ t = [b, b] := List.perm_replicate.mp hp
  rcases List.append_eq_cons_iff.mp he with ⟨rfl, rfl⟩ | ⟨s, rfl, hs⟩
  · exact .inl rfl
  · rcases List.append_eq_cons_iff.mp hs.symm with ⟨rfl, rfl⟩ | ⟨v, rfl, hr⟩
    · exact .inr (.inl rfl)
    · obtain ⟨rfl, rfl⟩ := List.append_eq_nil_iff.mp hr.symm
      exact .inr (.inr rfl)

/-- By the save that takes the first step, and when it takes its second. -/
theorem order_cases {ι : Type} {i j : ι} {order : List ι} (h : order.Perm [i, i, j, j]) :
    ∃ x y, (x = i ∧ y = j ∨ x = j ∧ y = i) ∧
      (order = [x, x, y, y] ∨ order = [x, y, x, y] ∨ order = [x, y, y, x]) := by
  cases order with
  | nil => exact absurd h.length_eq (by simp)
  | cons x rest =>
    have hx : x = i ∨ x = j := by
      simpa using h.subset List.mem_cons_self
    rcases hx with rfl | rfl
    · refine ⟨x, j, .inl ⟨rfl, rfl⟩, ?_⟩
      rcases perm_cons_pair h.cons_inv with rfl | rfl | rfl
      · exact .inl rfl
      · exact .inr (.inl rfl)
      · exact .inr (.inr rfl)
    · have hs : ([i, i] ++ [x, x]).Perm ([x, x] ++ [i, i]) := List.perm_append_comm
      refine ⟨x, i, .inr ⟨rfl, rfl⟩, ?_⟩
      rcases perm_cons_pair (h.trans hs).cons_inv with rfl | rfl | rfl
      · exact .inl rfl
      · exact .inr (.inl rfl)
      · exact .inr (.inr rfl)

/-! ## Steps -/

variable {ι : Type} [DecidableEq ι] (u : ι → Update)

def start (saved : SavedSettings) : Saves ι := ⟨saved, fun _ => .started⟩

/-- The next step of one of the saves; one that has returned takes none. -/
def step (w : Saves ι) (i : ι) : Saves ι :=
  match w.stage i with
  | .started => { w with
      stage := Function.update w.stage i (.loaded (SavedSettings.load (u i).provider w.saved)) }
  | .loaded settings =>
    let settings := updated (u i).schema settings (u i).settings
    ⟨SavedSettings.replace (u i).provider settings w.saved,
      Function.update w.stage i (.returned settings)⟩
  | .returned _ => w

/-- The steps of saves in some order. -/
def run (w : Saves ι) (order : List ι) : Saves ι := order.foldl (step u) w

def value? (provider name : String) (w : Saves ι) : Option Value :=
  Fields.get? name (SavedSettings.load provider w.saved)

variable {u} {w : Saves ι} {i j : ι} {provider name : String} {settings : Record}

theorem step_started (h : w.stage i = .started) : step u w i = { w with
    stage := Function.update w.stage i
      (.loaded (SavedSettings.load (u i).provider w.saved)) } := by
  rw [step, h]

theorem step_loaded (h : w.stage i = .loaded settings) : step u w i =
    ⟨SavedSettings.replace (u i).provider
        (updated (u i).schema settings (u i).settings) w.saved,
      Function.update w.stage i
        (.returned (updated (u i).schema settings (u i).settings))⟩ := by
  rw [step, h]

theorem step_returned (h : w.stage i = .returned settings) : step u w i = w := by
  rw [step, h]

/-- An update overlays what was loaded. -/
theorem get?_updated (update : Update) (loaded : Record) (name : String) :
    Fields.get? name (updated update.schema loaded update.settings) =
      (Fields.get? name update.sets).or (Fields.get? name loaded) := by
  rw [updated]
  exact Fields.get?_merge (update.distinct.filter _) ..

theorem stage_step_started (h : w.stage i = .started) : (step u w i).stage i =
    .loaded (SavedSettings.load (u i).provider w.saved) := by
  rw [step_started h]
  exact Function.update_self ..

theorem stage_step_loaded (h : w.stage i = .loaded settings) : (step u w i).stage i =
    .returned (updated (u i).schema settings (u i).settings) := by
  rw [step_loaded h]
  exact Function.update_self ..

theorem stage_step_of_ne (h : j ≠ i) : (step u w i).stage j = w.stage j := by
  cases hs : w.stage i with
  | started =>
    rw [step_started hs]
    exact Function.update_of_ne h ..
  | loaded settings =>
    rw [step_loaded hs]
    exact Function.update_of_ne h ..
  | returned settings => rw [step_returned hs]

theorem value?_step_loaded (h : w.stage i = .loaded settings) (name : String) :
    (step u w i).value? (u i).provider name =
      (Fields.get? name (u i).sets).or (Fields.get? name settings) := by
  rw [step_loaded h, value?, SavedSettings.load_replace_self, get?_updated]

/-- A save that takes both of its steps at once is a save through a resolver. -/
theorem save_eq_run (i : ι) (r : Resolver) {saved : SavedSettings} (h : r.saved = some saved) :
    ∃ settings, (run u (start saved) [i, i]).stage i = .returned settings ∧
      r.save (u i).provider (u i).settings (u i).schema =
        (.ok settings, { r with saved := some (run u (start saved) [i, i]).saved }) := by
  have hl : (step u (start saved) i).stage i =
      .loaded (SavedSettings.load (u i).provider saved) := stage_step_started rfl
  refine ⟨_, stage_step_loaded hl, ?_⟩
  rw [run, List.foldl_cons, List.foldl_cons, List.foldl_nil, step_loaded hl, step_started rfl, save,
    h]
  rfl

theorem run_alone (h : w.stage i = .started) :
    (∃ r, (run u w [i, i]).stage i = .returned r) ∧
    (∀ name, (run u w [i, i]).value? (u i).provider name =
      (Fields.get? name (u i).sets).or (w.value? (u i).provider name)) ∧
    ∀ j, j ≠ i → (run u w [i, i]).stage j = w.stage j := by
  have hl : (step u w i).stage i =
      .loaded (SavedSettings.load (u i).provider w.saved) := stage_step_started h
  rw [run, List.foldl_cons, List.foldl_cons, List.foldl_nil]
  refine ⟨⟨_, stage_step_loaded hl⟩, value?_step_loaded hl, ?_⟩
  intro j hj
  rw [stage_step_of_ne hj, stage_step_of_ne hj]

/-! ## Settings that stay -/

/-- A setting has a value in the store, and wherever it has been loaded from there. -/
structure Holding (u : ι → Update) (provider name : String) (value : Option Value)
    (w : Saves ι) : Prop where
  saved : w.value? provider name = value
  loaded : ∀ i settings, (u i).provider = provider → w.stage i = .loaded settings →
    Fields.get? name settings = value

theorem Holding.step {value : Option Value} (h : Holding u provider name value w) {i : ι}
    (hu : (u i).provider = provider → Fields.get? name (u i).sets = none) :
    Holding u provider name value (step u w i) := by
  cases hs : w.stage i with
  | started =>
    constructor
    · rw [step_started hs]
      exact h.saved
    · intro j settings hp hj
      by_cases hij : j = i
      · subst hij
        rw [stage_step_started hs] at hj
        cases hj
        rw [hp]
        exact h.saved
      · rw [stage_step_of_ne hij] at hj
        exact h.loaded j settings hp hj
  | loaded settings =>
    constructor
    · by_cases hp : (u i).provider = provider
      · subst hp
        rw [value?_step_loaded hs, hu rfl, h.loaded i settings rfl hs]
        rfl
      · rw [step_loaded hs, value?, SavedSettings.load_replace_of_ne hp]
        exact h.saved
    · intro j other hp hj
      by_cases hij : j = i
      · subst hij
        rw [stage_step_loaded hs] at hj
        cases hj
      · rw [stage_step_of_ne hij] at hj
        exact h.loaded j other hp hj
  | returned settings =>
    rw [step_returned hs]
    exact h

/-- A setting stays while the saves that take steps do not set it. -/
theorem Holding.run {value : Option Value} (h : Holding u provider name value w)
    {order : List ι} (hu : ∀ i ∈ order, (u i).provider = provider →
      Fields.get? name (u i).sets = none) :
    Holding u provider name value (run u w order) := by
  induction order generalizing w with
  | nil => exact h
  | cons i rest ih =>
    rw [Saves.run, List.foldl_cons]
    apply ih
    · exact h.step (hu i List.mem_cons_self)
    · intro j hj
      exact hu j (List.mem_cons_of_mem _ hj)

/-! ## Two saves of one provider -/

section

variable {x y : ι} (hxy : x ≠ y)

include hxy

theorem run_first_steps (saved : SavedSettings) {k : ι} (hk : k = x ∨ k = y) :
    (run u (start saved) [x, y]).stage k = .loaded (SavedSettings.load (u k).provider saved) := by
  rw [run, List.foldl_cons, List.foldl_cons, List.foldl_nil]
  rcases hk with rfl | rfl
  · rw [stage_step_of_ne hxy]
    exact stage_step_started rfl
  · have hs : (step u (start saved) x).stage k = .started := stage_step_of_ne hxy.symm
    rw [stage_step_started hs, step_started rfl]
    rfl

/-- Of two saves that have both loaded, the one that replaces last brings back what it loaded. -/
theorem run_last_steps {loaded other : Record} (hx : w.stage x = .loaded loaded)
    (hy : w.stage y = .loaded other) :
    (∀ k, k = x ∨ k = y → ∃ r, (run u w [x, y]).stage k = .returned r) ∧
    ∀ name, (run u w [x, y]).value? (u y).provider name =
      (Fields.get? name (u y).sets).or (Fields.get? name other) := by
  have hl : (step u w x).stage y = .loaded other := by
    rw [stage_step_of_ne hxy.symm]
    exact hy
  rw [run, List.foldl_cons, List.foldl_cons, List.foldl_nil]
  constructor
  · rintro k (rfl | rfl)
    · rw [stage_step_of_ne hxy]
      exact ⟨_, stage_step_loaded hx⟩
    · exact ⟨_, stage_step_loaded hl⟩
  · exact value?_step_loaded hl

theorem run_overlapped (saved : SavedSettings) {a b : ι} (hab : a ≠ b) (ha : a = x ∨ a = y)
    (hb : b = x ∨ b = y) :
    (∀ k, k = a ∨ k = b → ∃ r, (run u (start saved) [x, y, a, b]).stage k = .returned r) ∧
    ∀ name, (run u (start saved) [x, y, a, b]).value? (u b).provider name =
      (Fields.get? name (u b).sets).or
        (Fields.get? name (SavedSettings.load (u b).provider saved)) :=
  run_last_steps hab (run_first_steps hxy saved ha) (run_first_steps hxy saved hb)

/-- The second save loads what the first has saved, and does not set it again. -/
theorem run_serial (saved : SavedSettings) (hx : (u x).provider = provider)
    (hy : (u y).provider = provider)
    (hd : ∀ name, Fields.get? name (u x).sets = none ∨
      Fields.get? name (u y).sets = none) :
    (∀ k, k = x ∨ k = y → ∃ r, (run u (start saved) [x, x, y, y]).stage k = .returned r) ∧
    ∀ k, k = x ∨ k = y → ∀ name value, Fields.get? name (u k).sets = some value →
      (run u (start saved) [x, x, y, y]).value? provider name = some value := by
  have hrun : run u (start saved) [x, x, y, y] =
      run u (run u (start saved) [x, x]) [y, y] := rfl
  obtain ⟨⟨r, hr⟩, hvx, hox⟩ := run_alone (u := u) (w := start saved) (i := x) rfl
  obtain ⟨⟨q, hq⟩, hvy, hoy⟩ := run_alone (u := u) (i := y)
    ((hox y hxy.symm).trans rfl)
  rw [hrun]
  constructor
  · rintro k (rfl | rfl)
    · exact ⟨r, (hoy k hxy).trans hr⟩
    · exact ⟨q, hq⟩
  · rintro k (rfl | rfl) name value hv
    · have hn : Fields.get? name (u y).sets = none := by
        rcases hd name with hd | hd
        · rw [hv] at hd
          cases hd
        · exact hd
      have hh : Holding u provider name (some value) (run u (start saved) [k, k]) := by
        constructor
        · rw [← hx, hvx, hv, Option.some_or]
        · intro i settings _ hs
          by_cases hik : i = k
          · rw [hik, hr] at hs
            cases hs
          · rw [hox i hik] at hs
            cases hs
      have hset (i : ι) (hi : i ∈ [y, y]) : Fields.get? name (u i).sets = none := by
        rw [show i = y by simpa using hi]
        exact hn
      exact (hh.run fun i hi _ => hset i hi).saved
    · rw [← hy, hvy, hv, Option.some_or]

end

/-- A save whose steps follow each other is a save through a resolver. Two saves of one provider
return whatever the order of their steps. If one takes both steps before the other takes its first,
all that either update sets is saved. If both load first, the store ends with what was there before
them, and over it the update of the save that replaced last alone. -/
theorem saves_interleaved (hij : i ≠ j) (hi : (u i).provider = provider)
    (hj : (u j).provider = provider)
    (hd : ∀ name, Fields.get? name (u i).sets = none ∨
      Fields.get? name (u j).sets = none)
    {order : List ι} (ho : order.Perm [i, i, j, j]) (saved : SavedSettings) :
    (∀ k (r : Resolver), r.saved = some saved → ∃ settings,
      (run u (start saved) [k, k]).stage k = .returned settings ∧
      r.save (u k).provider (u k).settings (u k).schema =
        (.ok settings, { r with saved := some (run u (start saved) [k, k]).saved })) ∧
    (∀ k, k = i ∨ k = j → ∃ r, (run u (start saved) order).stage k = .returned r) ∧
    (Serial i j order → ∀ k, k = i ∨ k = j → ∀ name value,
      Fields.get? name (u k).sets = some value →
      (run u (start saved) order).value? provider name = some value) ∧
    (¬Serial i j order → ∃ last, (last = i ∨ last = j) ∧ order.getLast? = some last ∧
      ∀ name, (run u (start saved) order).value? provider name =
        (Fields.get? name (u last).sets).or
          (Fields.get? name (SavedSettings.load provider saved))) := by
  refine ⟨fun k r h => save_eq_run k r h, ?_⟩
  obtain ⟨x, y, hs, ho⟩ := order_cases ho
  have hk (k : ι) : k = i ∨ k = j ↔ k = x ∨ k = y := by
    rcases hs with ⟨rfl, rfl⟩ | ⟨rfl, rfl⟩
    · rfl
    · exact or_comm
  have hxy : x ≠ y := by
    rcases hs with ⟨rfl, rfl⟩ | ⟨rfl, rfl⟩
    · exact hij
    · exact hij.symm
  have hp (k : ι) (h : k = x ∨ k = y) : (u k).provider = provider := by
    rcases (hk k).mpr h with rfl | rfl
    · exact hi
    · exact hj
  have hdis (name : String) : Fields.get? name (u x).sets = none ∨
      Fields.get? name (u y).sets = none := by
    rcases hs with ⟨rfl, rfl⟩ | ⟨rfl, rfl⟩
    · exact hd name
    · exact (hd name).symm
  have hser : Serial i j order ↔ Serial x y order := by
    rcases hs with ⟨rfl, rfl⟩ | ⟨rfl, rfl⟩
    · rfl
    · exact or_comm
  simp only [hk, hser]
  rcases ho with rfl | rfl | rfl
  · obtain ⟨hr, hv⟩ := run_serial hxy saved (hp x (.inl rfl)) (hp y (.inr rfl)) hdis
    exact ⟨hr, fun _ => hv, fun hn => absurd (.inl ⟨[y, y], rfl⟩) hn⟩
  · obtain ⟨hr, hv⟩ := run_overlapped (u := u) hxy saved hxy (.inl rfl) (.inr rfl)
    rw [hp y (.inr rfl)] at hv
    exact ⟨hr, fun h => absurd h (not_serial hxy _), fun _ => ⟨y, .inr rfl, rfl, hv⟩⟩
  · obtain ⟨hr, hv⟩ := run_overlapped (u := u) hxy saved hxy.symm (.inr rfl) (.inl rfl)
    rw [hp x (.inl rfl)] at hv
    exact ⟨fun k hk => hr k hk.symm, fun h => absurd h (not_serial hxy _),
      fun _ => ⟨x, .inl rfl, rfl, hv⟩⟩

/-- Two updates of one provider, each of its own setting. -/
def apart : Bool → Update
  | false => ⟨"p", [("a", .int 1)], .empty, List.nodup_singleton _⟩
  | true => ⟨"p", [("b", .int 2)], .empty, List.nodup_singleton _⟩

theorem apart_disjoint (name : String) : Fields.get? name (apart false).sets = none ∨
    Fields.get? name (apart true).sets = none := by
  have hf : (apart false).sets = [("a", .int 1)] := rfl
  have ht : (apart true).sets = [("b", .int 2)] := rfl
  rw [hf, ht]
  by_cases hn : name = "a"
  · subst hn
    exact .inr rfl
  · left
    rw [Fields.get?, if_neg (Ne.symm hn)]
    rfl

theorem saves_interleaved_apart :
    (apart false).provider = "p" ∧ (apart true).provider = "p" ∧
    [false, false, true, true].Perm [false, false, true, true] ∧
    [false, true, true, false].Perm [false, false, true, true] ∧
    (run apart (start []) [false, false, true, true]).value? "p" "a" = some (.int 1) ∧
    (run apart (start []) [false, false, true, true]).value? "p" "b" = some (.int 2) ∧
    ∃ last, [false, true, true, false].getLast? = some last ∧
      (run apart (start []) [false, true, true, false]).value? "p" "a" =
        (Fields.get? "a" (apart last).sets).or none := by
  have hs := (saves_interleaved (u := apart) (i := false) (j := true) (by decide) rfl rfl
    apart_disjoint (List.Perm.refl _) []).2.2.1 (.inl ⟨[true, true], rfl⟩)
  have hp : [false, true, true, false].Perm [false, false, true, true] := by decide
  obtain ⟨last, -, hl, hv⟩ := (saves_interleaved (u := apart) (i := false) (j := true) (by decide)
    rfl rfl apart_disjoint hp []).2.2.2 (by rintro (h | h) <;> simp at h)
  exact ⟨rfl, rfl, .refl _, hp, hs false (.inl rfl) "a" _ rfl, hs true (.inr rfl) "b" _ rfl, last,
    hl, hv "a"⟩

/-- Both saves return, and the update of the one that replaced first is lost. -/
theorem interleaved_update_lost :
    [false, true, false, true].Perm [false, false, true, true] ∧
    (apart false).provider = (apart true).provider ∧
    (∀ k, isMasked (apart k).schema "a" (.int 1) = false) ∧
    (∃ r, (run apart (start []) [false, true, false, true]).stage false = .returned r) ∧
    (∃ r, (run apart (start []) [false, true, false, true]).stage true = .returned r) ∧
    Fields.get? "a" (apart false).settings = some (.int 1) ∧
    Fields.get? "a" (apart true).settings = none ∧
    (run apart (start []) [false, true, false, true]).value? "p" "a" ≠ some (.int 1) := by
  have hv : (run apart (start []) [false, true, false, true]).value? "p" "a" = none := rfl
  refine ⟨by decide, rfl, ?_, ⟨_, rfl⟩, ⟨_, rfl⟩, rfl, rfl, ?_⟩
  · intro k
    cases k <;> rfl
  · rw [hv]
    exact nofun

end Saves

end TrieFeed
