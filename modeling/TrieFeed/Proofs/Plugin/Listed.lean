import TrieFeed.App.Commands
import TrieFeed.Proofs.Plugin.Quiet
/-!
# Plugins that are listed

A pass lists every plugin that it loads, also one whose name a later one takes. The registry has the
last one of each name, which runs; the others are closed, whatever the summary says of them.
-/
namespace TrieFeed

namespace Context

variable {c : Context} {h : Host}

theorem load_generation {c' : Context} {h' : Host} (hl : c.load h = (.ok (), c', h')) :
    c'.generation.isSome := by
  unfold load at hl
  split at hl
  · cases hl
  · cases hl
  · split at hl
    · cases hl
      rfl
    · cases hl

theorem createLoaded_generation {provider : String} {language : Language} {scriptPath : Path}
    {sandbox : Sandbox} {h' : Host}
    (hc : createLoaded provider language scriptPath sandbox h = (.ok c, h')) :
    c.generation.isSome := by
  unfold createLoaded at hc
  split at hc
  · cases hc
  · split at hc
    · rename_i hl
      cases hc
      exact load_generation hl
    · cases hc

/-- A start keeps an engine, and settles the phase by how the script took it. -/
theorem start_cases (hg : c.generation.isSome) (config : Record) (h : Host) :
    ∃ next host,
      c.start config h = (.ok (), { c with phase := .initialized, generation := some next }, host) ∨
      ∃ e, c.start config h =
        (.error e, { c with phase := .failed, generation := some next }, host) := by
  obtain ⟨g, hg⟩ := Option.isSome_iff_exists.mp hg
  unfold start
  rw [hg]
  dsimp only
  rcases g.start config h with ⟨e | _, next, host⟩
  · exact ⟨next, host, .inr ⟨e, rfl⟩⟩
  · exact ⟨next, host, .inl rfl⟩

end Context

namespace Plugin

variable {p : Plugin} {h : Host}

structure Running (p : Plugin) : Prop where
  phase : p.context.phase ≠ .closed
  engine : p.context.generation.isSome

/-- A closed plugin refuses all requests for data. -/
structure Ended (p : Plugin) : Prop where
  phase : p.context.phase = .closed
  engine : p.context.generation = none
  refuses : ∀ (d : DataRequest) h, d.perform p h = (.error (d.refusal p), p, h)

theorem ended_close (p : Plugin) (h : Host) : (p.close h).1.Ended := by
  have hc : (p.close h).1.context = { p.context with phase := .closed, generation := none } :=
    p.context.close_generation h
  have hi : (p.close h).1.isInitialized = false := by
    rw [isInitialized, hc]
    rfl
  refine ⟨?_, ?_, data_uninitialized hi⟩
  · rw [hc]
  · rw [hc]

theorem opened_of_ofManifest {manifest : Manifest} {directory : Path} {h' : Host}
    (ho : ofManifest manifest directory h = (.ok p, h')) :
    p.context.phase = .loaded ∧ p.context.generation.isSome := by
  unfold ofManifest at ho
  split at ho
  · rename_i hc
    cases ho
    exact ⟨(Context.createLoaded_lived hc).1, Context.createLoaded_generation hc⟩
  · cases ho

theorem start_cases (hg : p.context.generation.isSome) (config : Record) (h : Host) :
    (∃ next host, p.start config h =
      (.ok (), { p with
        context := { p.context with phase := .initialized, generation := some next }
        lastConfig := some config }, host)) ∨
    ∃ e next host, p.start config h =
      (.error e, { p with
        context := { p.context with phase := .failed, generation := some next } }, host) := by
  rw [start, keeping_eq, inContext]
  obtain ⟨next, host, hs | ⟨e, hs⟩⟩ := Context.start_cases hg config h
  · rw [hs]
    exact .inl ⟨next, host, rfl⟩
  · rw [hs]
    exact .inr ⟨e, next, host, rfl⟩

theorem running_of_loaded (hp : p.context.phase = .loaded) (hg : p.context.generation.isSome) :
    p.Running ∧ p.isInitialized = false := by
  refine ⟨⟨?_, hg⟩, ?_⟩
  · rw [hp]
    decide
  · rw [isInitialized, hp]
    rfl

end Plugin

namespace Loader

variable {l : Loader} {h : Host} {p : Plugin}

/-- A plugin that was just loaded runs on, and is initialized exactly if it is found available. -/
theorem configure_running (hp : p.context.phase = .loaded) (hg : p.context.generation.isSome)
    (l : Loader) (h : Host) :
    (l.configure p h).2.1.Running ∧
      ((l.configure p h).1.toOption.getD .error = .available ↔
        (l.configure p h).2.1.isInitialized) := by
  obtain ⟨hr, hi⟩ := Plugin.running_of_loaded hp hg
  rcases configure_cases l p h with ⟨e, host, hc⟩ | ⟨host, hc⟩ | ⟨settings, host, hc⟩
  · rw [hc]
    refine ⟨hr, ?_⟩
    simp [Except.toOption, hi]
  · rw [hc]
    refine ⟨hr, ?_⟩
    simp [Except.toOption, hi]
  · rw [hc]
    rcases Plugin.start_cases hg settings host with ⟨next, host', hs⟩ | ⟨e, next, host', hs⟩
    · rw [hs]
      exact ⟨⟨Phase.noConfusion, rfl⟩, iff_of_true rfl rfl⟩
    · rw [hs]
      exact ⟨⟨Phase.noConfusion, rfl⟩, iff_of_false Readiness.noConfusion Bool.noConfusion⟩

/-- What a pass has listed, by how each plugin turned out, is what the loader has: the last plugin
of each name runs and the others are closed. -/
structure Listing (listed : List Readiness) (l : Loader) : Prop where
  length : listed.length = l.plugins.length
  current : l.Current
  standing {n p} (hp : l.plugins[n]? = some p) (hn : l.Latest p.name n) :
    p.Running ∧ (listed[n]? = some .available ↔ p.isInitialized)
  replaced {n p} (hp : l.plugins[n]? = some p) (hn : ¬ l.Latest p.name n) : p.Ended

theorem Listing.snoc {listed : List Readiness} (hl : Listing listed l)
    (hp : p.context.phase = .loaded) (hg : p.context.generation.isSome) (h : Host) :
    Listing (listed ++ (install p l h).1.readiness?.toList) (install p l h).2.1 := by
  obtain ⟨hrunning, hready⟩ :=
    configure_running hp hg (registerNext p.name l h).1 (registerNext p.name l h).2
  have hname := name_configured p l h
  rw [← configured_eq] at hrunning hready
  rw [install_fst]
  change Listing (listed ++ [(configured p l h).1.toOption.getD .error]) (install p l h).2.1
  constructor
  · rw [List.length_append, hl.length, length_install]
    rfl
  · exact current_install hl.current p h
  · intro n q hq hn
    rw [latest_install hl.current] at hn
    by_cases hqn : q.name = p.name
    · rw [if_pos hqn] at hn
      subst hn
      rw [getElem?_install_self] at hq
      obtain rfl : (configured p l h).2.1 = q := Option.some.inj hq
      refine ⟨hrunning, ?_⟩
      rw [← hl.length, List.getElem?_concat_length, Option.some_inj]
      exact hready
    · rw [if_neg hqn] at hn
      have hlt := lt_of_nameOf? hn.1
      have hnot : ¬ l.Latest p.name n := by
        intro hm
        exact hqn (Option.some.inj (hn.1.symm.trans hm.1))
      rw [getElem?_install_lt hlt, getElem?_registerNext_of_not hl.current hnot] at hq
      rw [List.getElem?_append_left (hl.length ▸ hlt)]
      exact hl.standing hq hn
  · intro n q hq hn
    rw [latest_install hl.current] at hn
    have hlt : n < l.plugins.length := by
      have hle := (List.getElem?_eq_some_iff.mp hq).1
      rw [length_install] at hle
      refine Nat.lt_of_le_of_ne (Nat.le_of_lt_succ hle) ?_
      rintro rfl
      rw [getElem?_install_self] at hq
      obtain rfl : (configured p l h).2.1 = q := Option.some.inj hq
      rw [if_pos hname] at hn
      exact hn rfl
    rw [getElem?_install_lt hlt] at hq
    by_cases hm : l.Latest p.name n
    · obtain ⟨old, ho, -⟩ := Option.map_eq_some_iff.mp hm.1
      rw [getElem?_registerNext_latest hl.current hm ho] at hq
      cases hq
      exact Plugin.ended_close old _
    · rw [getElem?_registerNext_of_not hl.current hm] at hq
      refine hl.replaced hq ?_
      intro hlatest
      by_cases hqn : q.name = p.name
      · exact hm (hqn ▸ hlatest)
      · rw [if_neg hqn] at hn
        exact hn hlatest

theorem Listing.turn {listed : List Readiness} (hl : Listing listed l) (directory : Path)
    (h : Host) :
    Listing (listed ++ (turn directory l h).1.readiness?.toList) (turn directory l h).2.1 := by
  rcases turn_cases directory l h with ⟨e, -, ht⟩ | ⟨manifest, -, ⟨-, ht⟩ | ⟨-, ht⟩⟩
  · rw [ht]
    exact (List.append_nil listed).symm ▸ hl
  · rw [ht]
    exact (List.append_nil listed).symm ▸ hl
  · rcases ht with ⟨e, host, -, ht⟩ | ⟨p, host, ho, ht⟩
    · rw [ht]
      exact (List.append_nil listed).symm ▸ hl
    · obtain ⟨hp, hg⟩ := Plugin.opened_of_ofManifest ho
      rw [ht]
      exact hl.snoc hp hg host

theorem Listing.turns {listed : List Readiness} (hl : Listing listed l) (directories : List Path)
    (h : Host) :
    Listing (listed ++ Turn.readinesses (turns directories l h).1)
      (turns directories l h).2.1 := by
  induction directories generalizing listed l h with
  | nil => exact (List.append_nil listed).symm ▸ hl
  | cons directory rest ih =>
    have hrest := ih (hl.turn directory h) (Loader.turn directory l h).2.2
    rw [turns_cons]
    rwa [List.append_assoc, ← Turn.readinesses_cons directory] at hrest

end Loader

namespace LoadSummary

theorem numbers_ofTurns (first : Nat) (turns : List (Path × Turn)) :
    (ofTurns first turns).loaded.map (·.number) =
      List.range' first (Turn.readinesses turns).length := by
  rw [ofTurns, List.map_map, ← List.zipIdx_map_snd]
  rfl

theorem readiness_of_mem {turns : List (Path × Turn)} {x : Loaded}
    (hx : x ∈ (ofTurns 0 turns).loaded) :
    (Turn.readinesses turns)[x.number]? = some x.readiness := by
  obtain ⟨⟨readiness, n⟩, hm, rfl⟩ := List.mem_map.mp hx
  exact List.mk_mem_zipIdx_iff_getElem?.mp hm

end LoadSummary

namespace Loader

variable {l : Loader} {h : Host}

theorem listing_nil (hl : l.plugins = []) (hr : l.registry = .empty) : Listing [] l := by
  have hn : ∀ {n : Nat} {p : Plugin}, l.plugins[n]? ≠ some p := by
    intro n p hp
    rw [hl] at hp
    cases hp
  constructor
  · rw [hl]
    rfl
  · intro name number
    rw [hr]
    constructor
    · intro hg
      cases hg
    · rintro ⟨hname, -⟩
      rw [nameOf?, hl] at hname
      cases hname
  · intro n p hp
    exact absurd hp hn
  · intro n p hp
    exact absurd hp hn

theorem find_eq_ok_iff (hc : l.Current) (name : String) (number : Nat) :
    l.registry.find name = .ok number ↔ l.Latest name number := by
  rw [← hc name number, Registry.find]
  cases Fields.get? name l.registry.entries <;> simp

/-- What a pass lists of a loader that has loaded nothing yet. -/
theorem loadAll_listing {l' : Loader} {h' : Host} {summary : LoadSummary} (hl : l.plugins = [])
    (hr : l.registry = .empty) (hrun : l.loadAll h = (.ok summary, l', h')) :
    summary.loaded.map (·.number) = List.range l'.plugins.length ∧
      ∃ listed, Listing listed l' ∧
        ∀ x ∈ summary.loaded, listed[x.number]? = some x.readiness := by
  rw [loadAll_eq] at hrun
  cases hd : discover l.directory h.files with
  | error e =>
    rw [hd] at hrun
    cases hrun
  | ok directories =>
    rw [hd, hl] at hrun
    obtain ⟨hs, hrest⟩ := Prod.mk.inj hrun
    cases Except.ok.inj hs
    obtain rfl : (turns directories l h).2.1 = l' := congrArg Prod.fst hrest
    have hlisting := (listing_nil hl hr).turns directories h
    rw [List.nil_append] at hlisting
    refine ⟨?_, _, hlisting, fun x hx => LoadSummary.readiness_of_mem hx⟩
    rw [← hlisting.length, List.range_eq_range']
    exact LoadSummary.numbers_ofTurns ..

/-- The plugin that is found first among the listed ones of a name. -/
theorem find?_loaded (summary : LoadSummary) (l : Loader) (h : Host) {name : String} {x : Loaded}
    (hx : summary.loaded.find? (fun x => l.nameOf? x.number = some name) = some x) :
    ((App.Runtime.loaded ⟨l, summary, h⟩).find? (·.1.name = name)).map (·.1) =
      l.plugins[x.number]? := by
  have hp : ∀ y : Loaded, (l.plugins[y.number]?.map fun p => (p, y.readiness)).any
      (fun q => decide (q.1.name = name)) = decide (l.nameOf? y.number = some name) := by
    intro y
    rw [nameOf?]
    cases l.plugins[y.number]? <;> simp
  rw [App.Runtime.loaded, List.find?_filterMap]
  simp only [hp, hx, Option.bind_some, Option.map_map]
  exact congrFun Option.map_id _

theorem latest_iff_greatest {summary : LoadSummary}
    (hn : summary.loaded.map (·.number) = List.range l.plugins.length) {name : String}
    {number : Nat} (hname : l.nameOf? number = some name) :
    l.Latest name number ↔
      ∀ y ∈ summary.loaded, l.nameOf? y.number = some name → y.number ≤ number := by
  constructor
  · rintro ⟨-, hlast⟩ y - hy
    exact hlast y.number hy
  · intro hall
    refine ⟨hname, fun other ho => ?_⟩
    have hm : other ∈ summary.loaded.map (·.number) := by
      rw [hn]
      exact List.mem_range.mpr (lt_of_nameOf? ho)
    obtain ⟨y, hy, rfl⟩ := List.mem_map.mp hm
    exact hall y hy ho

/-- What is found first of a name is the last one exactly if there is no other. -/
theorem latest_iff_only {summary : LoadSummary}
    (hn : summary.loaded.map (·.number) = List.range l.plugins.length) {name : String} {x : Loaded}
    (hx : summary.loaded.find? (fun x => l.nameOf? x.number = some name) = some x) :
    l.Latest name x.number ↔
      ∀ y ∈ summary.loaded, l.nameOf? y.number = some name → y.number = x.number := by
  have hname : l.nameOf? x.number = some name := by simpa using List.find?_some hx
  have hfirst : ∀ y ∈ summary.loaded, l.nameOf? y.number = some name → x.number ≤ y.number := by
    intro y hy hyn
    have hsorted : summary.loaded.Pairwise fun a b => a.number < b.number :=
      List.pairwise_map.mp (hn ▸ List.pairwise_lt_range)
    obtain ⟨-, before, after, he, hb⟩ := List.find?_eq_some_iff_append.mp hx
    rw [he] at hy hsorted
    rcases List.mem_append.mp hy with hy | hy
    · exact absurd hyn (by simpa using hb y hy)
    · rcases List.mem_cons.mp hy with rfl | hy
      · exact Nat.le_refl _
      · exact Nat.le_of_lt (List.rel_of_pairwise_cons (List.pairwise_append.mp hsorted).2.1 hy)
  rw [latest_iff_greatest hn hname]
  constructor
  · intro hall y hy hyn
    exact Nat.le_antisymm (hall y hy hyn) (hfirst y hy hyn)
  · intro honly y hy hyn
    exact Nat.le_of_eq (honly y hy hyn)

/-- All that a pass loads is listed, but only the last plugin of each name is registered. That one
runs, and is initialized exactly if it is listed as available; the others are closed and refuse all
requests for data, though they stay listed as they were. What is found first under a name is what is
registered exactly if it is the only one. -/
theorem listed_live_iff {l' : Loader} {h' : Host} {summary : LoadSummary} (hl : l.plugins = [])
    (hr : l.registry = .empty) (hrun : l.loadAll h = (.ok summary, l', h')) :
    summary.loaded.map (·.number) = List.range l'.plugins.length ∧
    (∀ x ∈ summary.loaded, ∃ p, l'.plugins[x.number]? = some p ∧
      (l'.registry.find p.name = .ok x.number ↔ ∀ y ∈ summary.loaded,
        l'.nameOf? y.number = some p.name → y.number ≤ x.number) ∧
      (l'.registry.find p.name = .ok x.number →
        p.Running ∧ (x.readiness = .available ↔ p.isInitialized)) ∧
      (l'.registry.find p.name ≠ .ok x.number → p.Ended)) ∧
    ∀ name x, summary.loaded.find? (fun x => l'.nameOf? x.number = some name) = some x →
      ((App.Runtime.loaded ⟨l', summary, h'⟩).find? (·.1.name = name)).map (·.1) =
          l'.plugins[x.number]? ∧
        (l'.registry.find name = .ok x.number ↔ ∀ y ∈ summary.loaded,
          l'.nameOf? y.number = some name → y.number = x.number) := by
  obtain ⟨hn, listed, hlisting, hready⟩ := loadAll_listing hl hr hrun
  refine ⟨hn, fun x hx => ?_, fun name x hx => ⟨find?_loaded summary l' h' hx, ?_⟩⟩
  · have hlt : x.number < l'.plugins.length := by
      rw [← List.mem_range, ← hn]
      exact List.mem_map_of_mem hx
    have hp := List.getElem?_eq_getElem hlt
    have hname : l'.nameOf? x.number = some (l'.plugins[x.number]).name := by
      rw [nameOf?, hp]
      rfl
    simp only [ne_eq, find_eq_ok_iff hlisting.current]
    refine ⟨_, hp, latest_iff_greatest hn hname, fun hlatest => ?_, hlisting.replaced hp⟩
    obtain ⟨hrunning, hiff⟩ := hlisting.standing hp hlatest
    rw [hready x hx, Option.some_inj] at hiff
    exact ⟨hrunning, hiff⟩
  · rw [find_eq_ok_iff hlisting.current]
    exact latest_iff_only hn hx

/-! ## Two directories with one name -/

/-- Two directories with the same manifest, and with scripts that define nothing. -/
def twinTree : FileTree :=
  ⟨["a", "b"].flatMap fun name =>
    [([name], .directory), ([name, "manifest.json"], .file (Utf8.encode (Manifest.plainText "p"))),
      ([name, "provider.js"], .file (Utf8.encode ""))], []⟩

set_option maxRecDepth 20000 in
theorem read_twin : Manifest.read (Manifest.plainText "p") = .ok (.plain "p") := by
  cbv

theorem quiet_twin {name : String} (hn : name ∈ ["a", "b"]) :
    QuietDirectory twinTree (FileTree.Place.toPath [name]) (.plain "p") "" ⟨[], .null⟩
      (FileTree.Place.toPath [name]) := by
  rcases List.mem_cons.mp hn with rfl | hn
  · exact .of_entries (by decide) (by decide) rfl rfl rfl read_twin rfl Script.quiet_empty rfl rfl
  · rcases List.mem_cons.mp hn with rfl | hn
    · exact .of_entries (by decide) (by decide) rfl rfl rfl read_twin rfl Script.quiet_empty rfl rfl
    · cases hn

theorem names_twin : twinTree.names [] = ["a", "b"] :=
  List.mergeSort_of_pairwise (by decide : ["a", "b"].Pairwise fun a b => !(b < a))

theorem discover_twin : discover top.directory twinTree =
    .ok (["a", "b"].map fun name => FileTree.Place.toPath [name]) :=
  discover_top names_twin fun _ hn => ⟨.plain "p", (quiet_twin hn).loads⟩

/-- The plugin of one of these directories once it is available. -/
def twin (name : String) : Plugin :=
  QuietDirectory.started (FileTree.Place.toPath [name]) (.plain "p") (FileTree.Place.toPath [name])
    ⟨[], .null⟩ []

theorem turns_twin :
    (turns (["a", "b"].map fun name => FileTree.Place.toPath [name]) top
        (.ofFiles twinTree)).1 =
      ["a", "b"].map fun name =>
        (FileTree.Place.toPath [name], .loaded (twin name) .available) := by
  have hstart : (⟨[], .null⟩ : Script.Module).entryPoints.contains Script.EntryPoint.start = false :=
    rfl
  have hquiet : ∀ d ∈ ["a", "b"].map fun name =>
      (FileTree.Place.toPath [name], (.plain "p"), FileTree.Place.toPath [name]),
      QuietDirectory (Host.ofFiles twinTree).files d.1 d.2.1 "" ⟨[], .null⟩ d.2.2 := by
    intro d hd
    obtain ⟨name, hn, rfl⟩ := List.mem_map.mp hd
    exact quiet_twin hn
  have hresolve : ∀ d ∈ ["a", "b"].map fun name =>
      (FileTree.Place.toPath [name], (.plain "p"), FileTree.Place.toPath [name]),
      top.resolve d.2.1 [] = .ok [] := by
    intro d hd
    obtain ⟨name, -, rfl⟩ := List.mem_map.mp hd
    exact resolve_top "p"
  exact QuietDirectory.turns_available hstart hquiet hresolve silent_top

/-- Both twins are listed as available, though the first is closed and only the second runs. -/
theorem listed_live_iff_twin : ∃ summary l' h',
    top.loadAll (.ofFiles twinTree) = (.ok summary, l', h') ∧
    summary.loaded = [⟨0, .available⟩, ⟨1, .available⟩] ∧
    l'.registry.find "p" = .ok 1 ∧
    (∃ p, l'.plugins[0]? = some p ∧ p.name = "p" ∧ p.Ended) ∧
    ∃ p, l'.plugins[1]? = some p ∧ p.name = "p" ∧ p.Running ∧ p.isInitialized := by
  obtain ⟨h, hh⟩ : ∃ h, h = Host.ofFiles twinTree := ⟨_, rfl⟩
  have hturns := turns_twin
  have hdiscover : discover top.directory h.files =
      .ok (["a", "b"].map fun name => FileTree.Place.toPath [name]) := hh ▸ discover_twin
  have hcurrent : top.Current := current_create _ _
  have hnames := map_name_turns hcurrent (["a", "b"].map fun name => FileTree.Place.toPath [name]) h
  rw [← hh] at hturns ⊢
  have hrun := loadAll_eq top h
  rw [hdiscover] at hrun
  dsimp only at hrun
  rw [hturns] at hrun hnames
  generalize (turns _ top h).2 = after at hrun hnames
  obtain ⟨l', h'⟩ := after
  obtain ⟨-, hall, -⟩ := listed_live_iff rfl rfl hrun
  have hname : l'.plugins.map Plugin.name = ["p", "p"] := hnames
  obtain ⟨p, hp, hfind, hrunning, -⟩ := hall ⟨1, .available⟩ (.tail _ (.head _))
  obtain ⟨q, hq, -, -, hended⟩ := hall ⟨0, .available⟩ (.head _)
  have hpn : p.name = "p" := by
    have hn := congrArg (·[1]?) hname
    rw [List.getElem?_map, hp] at hn
    exact Option.some.inj hn
  have hqn : q.name = "p" := by
    have hn := congrArg (·[0]?) hname
    rw [List.getElem?_map, hq] at hn
    exact Option.some.inj hn
  have hone : l'.registry.find "p" = .ok 1 := by
    rw [← hpn]
    refine hfind.mpr fun y hy _ => ?_
    rcases List.mem_cons.mp hy with rfl | hy
    · exact Nat.zero_le 1
    · cases List.mem_singleton.mp hy
      exact Nat.le_refl 1
  refine ⟨_, l', h', hrun, rfl, hone, ⟨q, hq, hqn, hended ?_⟩, p, hp, hpn, ?_⟩
  · rw [hqn, hone]
    decide
  · obtain ⟨hr, hi⟩ := hrunning (hpn ▸ hone)
    exact ⟨hr, hi.mp rfl⟩

end Loader

end TrieFeed
