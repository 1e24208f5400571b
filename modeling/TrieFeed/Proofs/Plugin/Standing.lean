import TrieFeed.Proofs.Plugin.Pass
/-!
# Plugins that stand for their names

The plugins that a loader has before a turn are of no account for it, except for the one that stands
for the name of the plugin that is loaded.
-/
namespace TrieFeed

namespace Loader

variable {l m : Loader} {h : Host} {names : String → Prop}

/-! ## The plugin that stands for a name -/

def standing (name : String) (l : Loader) : Option Plugin :=
  (Fields.get? name l.registry.entries).bind (l.plugins[·]?)

/-- Two loaders that differ at most in how plugins are numbered and in what stands for some
names. -/
structure Same (names : String → Prop) (l m : Loader) : Prop where
  resolver : l.resolver = m.resolver
  fault : l.settingsFault? = m.settingsFault?
  standing : ∀ name, ¬ names name → l.standing name = m.standing name

theorem Same.refl (names : String → Prop) (l : Loader) : Same names l l :=
  ⟨rfl, rfl, fun _ _ => rfl⟩

theorem Same.symm (hs : Same names l m) : Same names m l :=
  ⟨hs.resolver.symm, hs.fault.symm, fun name hn => (hs.standing name hn).symm⟩

theorem Same.trans {n : Loader} (hs : Same names l m) (ht : Same names m n) : Same names l n :=
  ⟨hs.resolver.trans ht.resolver, hs.fault.trans ht.fault,
    fun name hn => (hs.standing name hn).trans (ht.standing name hn)⟩

theorem standing_install (hc : l.Current) (p : Plugin) (h : Host) (name : String) :
    (install p l h).2.1.standing name =
      if name = p.name then some (configured p l h).2.1 else l.standing name := by
  rw [standing]
  change (Fields.get? name (registerNext p.name l h).1.registry.entries).bind _ = _
  rw [registry_registerNext]
  by_cases hn : name = p.name
  · subst hn
    rw [if_pos rfl, Fields.get?_insert_self, Option.bind_some, getElem?_install_self]
  · rw [if_neg hn, Fields.get?_insert_of_ne (Ne.symm hn), standing]
    cases hg : Fields.get? name l.registry.entries with
    | none => rfl
    | some number =>
      have hlatest := (hc name number).mp hg
      have hnot : ¬ l.Latest p.name number := by
        intro hm
        exact hn (Option.some.inj (hlatest.1.symm.trans hm.1))
      rw [Option.bind_some, Option.bind_some, getElem?_install_lt (lt_of_nameOf? hlatest.1),
        getElem?_registerNext_of_not hc hnot]

/-- What a turn opens does not depend on the loader. -/
theorem turn_uniform (directory : Path) (h : Host) :
    (∃ t host, t.plugin? = none ∧ ∀ l, turn directory l h = (t, l, host)) ∨
    ∃ p host, ∀ l, turn directory l h = install p l host := by
  unfold turn
  cases Manifest.load h.files directory with
  | error e => exact .inl ⟨.failed e, h, rfl, fun _ => rfl⟩
  | ok manifest =>
    dsimp only
    cases h.files.isFile (manifest.scriptPath directory) with
    | false => exact .inl ⟨.passedOver, h, rfl, fun _ => rfl⟩
    | true =>
      simp only [if_true]
      rcases Plugin.ofManifest manifest directory h with ⟨e | p, host⟩
      · exact .inl ⟨.failed e, host, rfl, fun _ => rfl⟩
      · exact .inr ⟨p, host, fun _ => rfl⟩

/-- A turn changes what stands for the name that it loads, and for no other. -/
theorem same_turn (hl : l.Current) {directory : Path}
    (hn : ∀ p, (turn directory l h).1.plugin? = some p → names p.name) :
    Same names l (turn directory l h).2.1 := by
  rcases turn_uniform directory h with ⟨t, host, -, ht⟩ | ⟨p, host, ht⟩
  · rw [ht l]
    exact .refl names l
  · have hname := name_configured p l host
    have hp : names p.name := by
      rw [ht l, install_fst] at hn
      exact hname ▸ hn _ rfl
    obtain ⟨hr, hf⟩ := install_settings p l host
    rw [ht l]
    refine ⟨hr.symm, hf.symm, fun name hno => ?_⟩
    have hne : name ≠ p.name := by
      rintro rfl
      exact hno hp
    rw [standing_install hl, if_neg hne]

theorem current_turns (hl : l.Current) (directories : List Path) (h : Host) :
    (turns directories l h).2.1.Current := by
  induction directories generalizing l h with
  | nil => exact hl
  | cons directory rest ih =>
    rw [turns_cons]
    exact ih (current_turn hl directory h) _

theorem same_turns (hl : l.Current) {directories : List Path}
    (hn : ∀ t ∈ (turns directories l h).1, ∀ p, t.2.plugin? = some p → names p.name) :
    Same names l (turns directories l h).2.1 := by
  induction directories generalizing l h with
  | nil => exact .refl names l
  | cons directory rest ih =>
    rw [turns_cons] at hn
    have hfirst := same_turn hl fun p hp => hn _ List.mem_cons_self p hp
    have hrest := ih (current_turn hl directory h) fun t ht => hn t (List.mem_cons_of_mem _ ht)
    rw [turns_cons]
    exact hfirst.trans hrest

end Loader

end TrieFeed
