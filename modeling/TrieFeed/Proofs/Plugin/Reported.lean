import TrieFeed.Proofs.Plugin.Listed
import TrieFeed.Proofs.Plugin.Standing
/-!
# Reported and actual readiness

The summary of a pass says of each plugin how far its configuration came, and the plugin itself says
how ready it is by what that left behind. The two agree exactly if the plugin's connection schema
and its settings could be had: without these the summary reports an error, while the plugin, loaded
and never started, says that it waits for its configuration.
-/
namespace TrieFeed.Loader

variable {l : Loader} {h : Host} {p : Plugin} {schema : Schema} {settings : Record}

/-! ## One plugin -/

/-- What has to be known of a plugin before it can be started: its connection schema, and the
settings of all layers over the defaults of that. -/
def settingsOf (l : Loader) (p : Plugin) (h : Host) : Except PluginError (Schema × Record) :=
  match (Plugin.schemaFrom Script.EntryPoint.connectionSchema p h).1 with
  | .error e => .error e
  | .ok schema =>
    match l.resolve p.manifest schema.defaults with
    | .error e => .error (.contract e)
    | .ok settings => .ok (schema, settings)

/-- Whether a plugin is left to wait for settings that it requires and nobody has set. -/
def waits (l : Loader) (p : Plugin) (schema : Schema) : Bool :=
  !l.resolver.hasExplicit p.name && schema.hasRequired

/-- A configuration fails where the settings cannot be had, and goes by them otherwise. -/
theorem configure_eq (l : Loader) (p : Plugin) (h : Host) :
    ∃ host, l.configure p h =
      match l.settingsOf p h with
      | .error e => (.error e, p, host)
      | .ok (schema, settings) =>
        if l.waits p schema then (.ok .notConfigured, p, host)
        else
          match p.start settings host with
          | (.ok (), p, h) => (.ok .available, p, h)
          | (.error e, p, h) => (.error e, p, h) := by
  unfold configure settingsOf Plugin.schemaFrom
  rcases Plugin.askAside Script.EntryPoint.connectionSchema [] p h with ⟨e | answer, host⟩
  · exact ⟨host, rfl⟩
  · refine ⟨host, ?_⟩
    dsimp only [Except.map]
    cases l.resolve p.manifest ((answer.map Schema.ofValue).getD .empty).defaults with
    | error e => rfl
    | ok settings => rfl

theorem settingsOf_unreadable {e : ProviderError}
    (hf : l.settingsFault? p.manifest.name = some e) : ∃ fault, l.settingsOf p h = .error fault := by
  unfold settingsOf resolve
  rw [hf]
  cases (Plugin.schemaFrom Script.EntryPoint.connectionSchema p h).1 with
  | error fault => exact ⟨fault, rfl⟩
  | ok schema => exact ⟨.contract e, rfl⟩

theorem readiness_of_loaded (hp : p.context.phase = .loaded) : p.readiness = .notConfigured := by
  rw [Plugin.readiness, hp]

/-- How a configuration that came to an answer is listed. -/
def listedAs (answer : Except PluginError Readiness) : Readiness := answer.toOption.getD .error

theorem configure_without_settings (hp : p.context.phase = .loaded) {e : PluginError}
    (hs : l.settingsOf p h = .error e) :
    listedAs (l.configure p h).1 = .error ∧
      (l.configure p h).2.1.readiness = .notConfigured := by
  obtain ⟨host, hc⟩ := configure_eq l p h
  rw [hc, hs]
  exact ⟨rfl, readiness_of_loaded hp⟩

/-- A plugin whose settings can be had is listed as what it then is. -/
theorem configure_with_settings (hp : p.context.phase = .loaded)
    (hg : p.context.generation.isSome) (hs : l.settingsOf p h = .ok (schema, settings)) :
    listedAs (l.configure p h).1 = (l.configure p h).2.1.readiness ∧
      ((l.configure p h).2.1.readiness = .notConfigured ↔ l.waits p schema) := by
  obtain ⟨host, hc⟩ := configure_eq l p h
  rw [hc, hs]
  dsimp only
  by_cases hw : l.waits p schema
  · rw [if_pos hw]
    exact ⟨(readiness_of_loaded hp).symm, iff_of_true (readiness_of_loaded hp) hw⟩
  · rw [if_neg hw]
    rcases Plugin.start_cases hg settings host with ⟨next, host', hs⟩ | ⟨e, next, host', hs⟩
    · rw [hs]
      exact ⟨rfl, iff_of_false Readiness.noConfusion hw⟩
    · rw [hs]
      exact ⟨rfl, iff_of_false Readiness.noConfusion hw⟩

/-- Loaders with the same settings know the same of a plugin. -/
theorem known_congr {m : Loader} (hr : l.resolver = m.resolver)
    (hf : l.settingsFault? = m.settingsFault?) (p : Plugin) :
    (∀ h, l.settingsOf p h = m.settingsOf p h) ∧ ∀ schema, l.waits p schema = m.waits p schema := by
  unfold settingsOf waits resolve
  rw [hr, hf]
  exact ⟨fun _ => rfl, fun _ => rfl⟩

theorem configured_readiness (hp : p.context.phase = .loaded) (hg : p.context.generation.isSome)
    (l : Loader) (h : Host) :
    let known := l.settingsOf p (registerNext p.name l h).2
    (listedAs (configured p l h).1 = (configured p l h).2.1.readiness ↔
      ∃ schema settings, known = .ok (schema, settings)) ∧
    (∀ e, known = .error e → listedAs (configured p l h).1 = .error ∧
      (configured p l h).2.1.readiness = .notConfigured) ∧
    ∀ schema settings, known = .ok (schema, settings) →
      ((configured p l h).2.1.readiness = .notConfigured ↔ l.waits p schema) := by
  obtain ⟨hr, hf⟩ := registerNext_settings p.name l h
  obtain ⟨hknown, hwaits⟩ := known_congr hr hf p
  intro known
  have hk : (registerNext p.name l h).1.settingsOf p (registerNext p.name l h).2 = known :=
    hknown _
  rw [configured_eq]
  refine ⟨?_, fun e he => configure_without_settings hp (hk.trans he), fun schema settings hs => ?_⟩
  · cases hs : known with
    | error e =>
      obtain ⟨hreported, hactual⟩ := configure_without_settings hp (hk.trans hs)
      refine iff_of_false (fun he => ?_) nofun
      exact Readiness.noConfusion (hreported.symm.trans (he.trans hactual))
    | ok known =>
      exact iff_of_true (configure_with_settings hp hg (hk.trans hs)).1 ⟨_, _, rfl⟩
  · rw [← hwaits]
    exact (configure_with_settings hp hg (hk.trans hs)).2

/-! ## Passes -/

theorem length_turn (directory : Path) (l : Loader) (h : Host) :
    (turn directory l h).2.1.plugins.length =
      l.plugins.length + (turn directory l h).1.readiness?.toList.length := by
  rcases turn_cases directory l h with ⟨e, -, ht⟩ | ⟨manifest, -, ⟨-, ht⟩ | ⟨-, ht⟩⟩
  · rw [ht]
    rfl
  · rw [ht]
    rfl
  · rcases ht with ⟨e, host, -, ht⟩ | ⟨p, host, -, ht⟩
    · rw [ht]
      rfl
    · rw [ht, length_install]
      rfl

theorem loaded_ofTurns_cons (n : Nat) (directory : Path) (t : Turn) (rest : List (Path × Turn)) :
    (LoadSummary.ofTurns n ((directory, t) :: rest)).loaded =
      (t.readiness?.toList.map fun r => ⟨n, r⟩) ++
        (LoadSummary.ofTurns (n + t.readiness?.toList.length) rest).loaded := by
  cases t <;> rfl

/-- What is listed was loaded in the turn of some directory, and has the number after those of the
plugins before it. -/
theorem turn_of_listed {directories : List Path} {x : Loaded}
    (hx : x ∈ (LoadSummary.ofTurns l.plugins.length (turns directories l h).1).loaded) :
    ∃ before directory after, directories = before ++ directory :: after ∧
      x.number = (turns before l h).2.1.plugins.length ∧
      (turn directory (turns before l h).2.1 (turns before l h).2.2).1.readiness? =
        some x.readiness := by
  induction directories generalizing l h with
  | nil => cases hx
  | cons directory rest ih =>
    rw [turns_cons, loaded_ofTurns_cons, List.mem_append, ← length_turn] at hx
    rcases hx with hx | hx
    · obtain ⟨r, hr, rfl⟩ := List.mem_map.mp hx
      exact ⟨[], directory, rest, rfl, rfl, Option.mem_toList.mp hr⟩
    · obtain ⟨before, d, after, rfl, hn, hr⟩ := ih hx
      exact ⟨directory :: before, d, after, rfl, hn, hr⟩

/-- Turns leave a plugin alone while none of them loads its name. -/
theorem getElem?_turns (hc : l.Current) {number : Nat} (hp : l.plugins[number]? = some p)
    {directories : List Path}
    (hn : ∀ q ∈ (turns directories l h).1.filterMap (·.2.plugin?), q.name ≠ p.name) :
    (turns directories l h).2.1.plugins[number]? = some p := by
  induction directories generalizing l h with
  | nil => exact hp
  | cons directory rest ih =>
    have hstep : (turn directory l h).2.1.plugins[number]? = some p := by
      rcases turn_uniform directory h with ⟨t, host, -, ht⟩ | ⟨q, host, ht⟩
      · rw [ht l]
        exact hp
      · have hq : q.name ≠ p.name := by
          refine name_configured q l host ▸ hn (configured q l host).2.1 (List.mem_filterMap.mpr ?_)
          refine ⟨(directory, (turn directory l h).1), List.mem_cons_self, ?_⟩
          rw [ht l]
          rfl
        have hnot : ¬ l.Latest q.name number := by
          rintro ⟨hname, -⟩
          rw [nameOf?, hp] at hname
          exact hq (Option.some.inj hname).symm
        rw [ht l, getElem?_install_lt (List.getElem?_eq_some_iff.mp hp).1,
          getElem?_registerNext_of_not hc hnot]
        exact hp
    rw [turns_cons] at hn ⊢
    refine ih (current_turn hc directory h) hstep fun q hq => hn q ?_
    obtain ⟨t, ht, hqt⟩ := List.mem_filterMap.mp hq
    exact List.mem_filterMap.mpr ⟨t, List.mem_cons_of_mem _ ht, hqt⟩

theorem settings_turns (hc : l.Current) (directories : List Path) (h : Host) :
    (turns directories l h).2.1.resolver = l.resolver ∧
      (turns directories l h).2.1.settingsFault? = l.settingsFault? := by
  have hs : Same (fun _ => True) l (turns directories l h).2.1 :=
    same_turns hc fun _ _ _ _ => trivial
  exact ⟨hs.resolver.symm, hs.fault.symm⟩

/-- The plugins that turns load have the names of those that come after the others. -/
theorem drop_map_name_turns (hc : l.Current) (directories : List Path) (h : Host) :
    ((turns directories l h).2.1.plugins.drop l.plugins.length).map Plugin.name =
      ((turns directories l h).1.filterMap (·.2.plugin?)).map Plugin.name := by
  rw [List.map_drop, map_name_turns hc]
  exact List.drop_left' (List.length_map _)

/-- The plugin that a turn loads is what its configuration left, and stays so over later turns of
other names. -/
theorem plugin_of_install (hc : l.Current) (opened : Plugin) (h : Host) {directories : List Path}
    (hn : ∀ q ∈ (turns directories (install opened l h).2.1 (install opened l h).2.2).1.filterMap
      (·.2.plugin?), q.name ≠ opened.name) :
    (turns directories (install opened l h).2.1 (install opened l h).2.2).2.1.plugins[
        l.plugins.length]? = some (configured opened l h).2.1 := by
  refine getElem?_turns (current_install hc opened h) (getElem?_install_self opened l h) ?_
  rw [name_configured]
  exact hn

/-- No later turn loads the name of a plugin whose turn comes first, if all names differ. -/
theorem names_later {before after : List (Path × Turn)} {directory : Path} {opened : Plugin}
    (hn : (((before ++ (directory, (install opened l h).1) :: after).filterMap
      (·.2.plugin?)).map Plugin.name).Nodup) :
    ∀ q ∈ after.filterMap (·.2.plugin?), q.name ≠ opened.name := by
  rw [List.filterMap_append, List.map_append] at hn
  have hlast : ((configured opened l h).2.1.name ::
      (after.filterMap (·.2.plugin?)).map Plugin.name).Nodup := (List.nodup_append.mp hn).2.1
  rw [name_configured] at hlast
  intro q hq he
  exact (List.nodup_cons.mp hlast).1 (he ▸ List.mem_map_of_mem hq)

/-- What a pass lists of a plugin is what the plugin itself says of its readiness, exactly if its
connection schema and the settings of its layers could be had when its turn came. Where they could
not, an error is listed, and the plugin says that it waits for its configuration. Otherwise it waits
exactly if it requires settings and nobody has set any. -/
theorem reported_readiness_iff {l' : Loader} {h' : Host} {summary : LoadSummary} (hc : l.Current)
    (hrun : l.loadAll h = (.ok summary, l', h'))
    (hn : ((l'.plugins.drop l.plugins.length).map Plugin.name).Nodup) :
    ∀ x ∈ summary.loaded, ∃ p, l'.plugins[x.number]? = some p ∧
      ∃ before directory after manifest opened host,
        discover l.directory h.files = .ok (before ++ directory :: after) ∧
        x.number = (turns before l h).2.1.plugins.length ∧
        Manifest.load (turns before l h).2.2.files directory = .ok manifest ∧
        Plugin.ofManifest manifest directory (turns before l h).2.2 = (.ok opened, host) ∧
        let known := l.settingsOf opened (registerNext opened.name (turns before l h).2.1 host).2
        (x.readiness = p.readiness ↔ ∃ schema settings, known = .ok (schema, settings)) ∧
        (∀ e, known = .error e → x.readiness = .error ∧ p.readiness = .notConfigured) ∧
        ∀ schema settings, known = .ok (schema, settings) →
          (p.readiness = .notConfigured ↔ l.waits opened schema) := by
  rw [loadAll_eq] at hrun
  cases hd : discover l.directory h.files with
  | error e =>
    rw [hd] at hrun
    cases hrun
  | ok directories =>
    rw [hd] at hrun
    obtain ⟨hs, hrest⟩ := Prod.mk.inj hrun
    cases Except.ok.inj hs
    obtain rfl : (turns directories l h).2.1 = l' := congrArg Prod.fst hrest
    rw [drop_map_name_turns hc] at hn
    intro x hx
    obtain ⟨before, directory, after, rfl, hnumber, hr⟩ := turn_of_listed hx
    have hcurrent := current_turns hc before h
    obtain ⟨hresolver, hfault⟩ := settings_turns hc before h
    rw [turns_append, turns_cons] at hn ⊢
    -- Of the ways in which a turn can go only a loaded plugin is listed.
    rcases turn_cases directory (turns before l h).2.1 (turns before l h).2.2 with
      ⟨e, -, ht⟩ | ⟨manifest, hm, ⟨-, ht⟩ | ⟨-, ⟨e, host, -, ht⟩ | ⟨opened, host, ho, ht⟩⟩⟩
    · rw [ht] at hr
      cases hr
    · rw [ht] at hr
      cases hr
    · rw [ht] at hr
      cases hr
    · obtain ⟨hphase, hengine⟩ := Plugin.opened_of_ofManifest ho
      obtain ⟨hknown, hwaits⟩ := known_congr hresolver hfault opened
      rw [ht] at hn hr ⊢
      have hlisted : x.readiness = listedAs (configured opened (turns before l h).2.1 host).1 :=
        (Option.some.inj hr).symm
      have hready := configured_readiness hphase hengine (turns before l h).2.1 host
      rw [hknown] at hready
      simp only [hwaits] at hready
      refine ⟨_, hnumber ▸ plugin_of_install hcurrent opened host (names_later hn), before,
        directory, after, manifest, opened, host, rfl, hnumber, hm, ho, ?_⟩
      rw [hlisted]
      exact hready

/-! ## A store that cannot be read -/

/-- One directory, with a script that defines nothing. -/
def singleTree : FileTree :=
  ⟨[(["a"], .directory), (["a", "manifest.json"], .file (Utf8.encode (Manifest.plainText "p"))),
    (["a", "provider.js"], .file (Utf8.encode ""))], []⟩

/-- A loader whose saved settings cannot be read. -/
def locked : Loader := { top with settingsFault? := fun _ => some (.internal "locked") }

theorem quiet_single : QuietDirectory singleTree (FileTree.Place.toPath ["a"]) (.plain "p") ""
    ⟨[], .null⟩ (FileTree.Place.toPath ["a"]) :=
  .of_entries (by decide) (by decide) rfl rfl rfl read_twin rfl Script.quiet_empty rfl rfl

theorem discover_single :
    discover locked.directory singleTree = .ok [FileTree.Place.toPath ["a"]] := by
  have hnames : singleTree.names [] = ["a"] :=
    List.mergeSort_of_pairwise (by decide : ["a"].Pairwise fun a b => !(b < a))
  refine discover_top hnames fun name hn => ?_
  cases List.mem_singleton.mp hn
  exact ⟨.plain "p", quiet_single.loads⟩

/-- The pass lists an error, and the plugin waits for its configuration. -/
theorem reported_readiness_iff_locked : ∃ summary l' h' x p,
    locked.Current ∧ locked.loadAll (.ofFiles singleTree) = (.ok summary, l', h') ∧
    ((l'.plugins.drop locked.plugins.length).map Plugin.name).Nodup ∧
    x ∈ summary.loaded ∧ l'.plugins[x.number]? = some p ∧
    x.readiness = .error ∧ p.readiness = .notConfigured := by
  have hcurrent : locked.Current := current_create top.directory top.resolver
  have hdiscover : discover locked.directory (Host.ofFiles singleTree).files =
      .ok [FileTree.Place.toPath ["a"]] := discover_single
  have hturn : ∃ q r, (turn (FileTree.Place.toPath ["a"]) locked (.ofFiles singleTree)).1 =
      .loaded q r := by
    rw [QuietDirectory.turn (h := .ofFiles singleTree) quiet_single locked, install_fst]
    exact ⟨_, _, rfl⟩
  have hrun := loadAll_eq locked (.ofFiles singleTree)
  have hnames := drop_map_name_turns hcurrent [FileTree.Place.toPath ["a"]] (.ofFiles singleTree)
  rw [hdiscover] at hrun
  dsimp only at hrun
  rw [turns_cons] at hrun hnames
  generalize turn (FileTree.Place.toPath ["a"]) locked (.ofFiles singleTree) = first at *
  obtain ⟨t, l', h'⟩ := first
  obtain ⟨q, r, rfl⟩ := hturn
  have hdistinct : ((l'.plugins.drop locked.plugins.length).map Plugin.name).Nodup :=
    hnames ▸ List.nodup_singleton q.name
  obtain ⟨p, hp, _, _, _, _, opened, _, -, -, -, -, -, hknown, -⟩ :=
    reported_readiness_iff hcurrent hrun hdistinct ⟨0, r⟩ (List.mem_singleton_self _)
  obtain ⟨e, he⟩ := settingsOf_unreadable (l := locked) (p := opened) rfl
  obtain ⟨hreported, hactual⟩ := hknown e he
  exact ⟨_, l', h', ⟨0, r⟩, p, hcurrent, hrun, hdistinct, List.mem_singleton_self _, hp, hreported,
    hactual⟩

end TrieFeed.Loader
