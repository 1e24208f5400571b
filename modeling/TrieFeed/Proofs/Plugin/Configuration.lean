import TrieFeed.Proofs.Plugin.Engines
import TrieFeed.Proofs.Plugin.Requests
/-!
# Configurations that plugins remember

Of all that is requested of a plugin only starts and reconfigurations hand it a configuration. It
remembers the last one that worked, reloads start the script with that one, and as long as the
plugin is initialized the live script has been handed it, if it takes configurations that way at
all.
-/
namespace TrieFeed

namespace Call

theorem notMem_dataNames {entryPoint : String} (h : HandsOver entryPoint) :
    entryPoint ∉ dataNames := by
  rcases h with rfl | rfl <;> decide

/-- Data is asked for only after the script has taken a configuration. -/
def Guarded (calls : List Call) : Prop :=
  ∀ before call, (before ++ [call]) <+: calls → call.entryPoint ∈ dataNames →
    (latest before).isSome

variable {calls : List Call} {call : Call}

theorem guarded_nil : Guarded [] := fun before call hp =>
  absurd (List.prefix_nil.mp hp)
    (List.append_ne_nil_of_right_ne_nil before (List.cons_ne_nil call []))

theorem Guarded.snoc (hg : Guarded calls)
    (hc : call.entryPoint ∈ dataNames → (latest calls).isSome) : Guarded (calls ++ [call]) := by
  intro before last hp hd
  rcases List.prefix_concat_iff.mp hp with he | hp
  · obtain ⟨hb, hl⟩ := List.append_inj' he rfl
    cases hb
    cases hl
    exact hc hd
  · exact hg before last hp hd

end Call

namespace Plugin

variable {p : Plugin} {h : Host}

/-! ## What has happened to a plugin -/

structure Ledger where
  /-- The configuration of the latest start or reconfiguration that worked. -/
  accepted : Option Record
  /-- Whether the live script was called with it. -/
  handed : Bool
  /-- The calls of the live generation. -/
  calls : List Call

namespace Ledger

def empty : Ledger := ⟨none, false, []⟩

/-- Notes that a configuration was handed over. -/
def handOver (config : Record) (worked : Bool) (made : List Call) (l : Ledger) : Ledger :=
  if worked then ⟨some config, !made.isEmpty, l.calls ++ made⟩
  else { l with calls := l.calls ++ made }

/-- Notes a request of a plugin. -/
def after (l : Ledger) (p : Plugin) (h : Host) (request : Request) : Ledger :=
  let worked := (perform request p h).1.isOk
  match request with
  | .start config | .reconfigure config =>
    l.handOver config worked (p.context.asked (p.handover request) [.map config] h)
  | .reload =>
    if worked then
      let made := (p.reload h).2.1.context.startCalls p.reloadConfig
      ⟨l.accepted, !made.isEmpty, made⟩
    else l
  | .close => ⟨l.accepted, false, []⟩
  | .data d =>
    if p.isInitialized then { l with calls := l.calls ++ p.context.asked d.entryPoint d.args h }
    else l

end Ledger

/-- A plugin as requests can leave it, with what has happened. Every request meets a host of its
own, so scripts and their luck may change in between. -/
inductive Reached : Plugin → Ledger → Prop where
  | opened {manifest directory h p h'} (ho : ofManifest manifest directory h = (.ok p, h')) :
      Reached p .empty
  | tail {p l} (before : Reached p l) (request : Request) (h : Host) :
      Reached (perform request p h).2.1 (l.after p h request)

structure Sound (p : Plugin) (l : Ledger) : Prop where
  accepted : l.accepted = p.lastConfig
  configured : p.isInitialized → p.lastConfig.isSome
  lived : p.context.Lived l.calls
  handed : l.handed → Call.latest l.calls = l.accepted
  started : p.isInitialized → p.context.defines Script.EntryPoint.start → l.handed
  guarded : p.context.defines Script.EntryPoint.start → Call.Guarded l.calls

variable {l : Ledger}

/-- A plugin that is not initialized, with a generation that has not been called. -/
theorem Sound.blank (hi : p.isInitialized = false) (hl : p.context.Lived []) :
    Sound p ⟨p.lastConfig, false, []⟩ where
  accepted := rfl
  configured hi' := absurd (hi.symm.trans hi') Bool.false_ne_true
  lived := hl
  handed hh := absurd hh Bool.false_ne_true
  started hi' := absurd (hi.symm.trans hi') Bool.false_ne_true
  guarded _ := Call.guarded_nil

/-- A configuration that the script does not ask for is accepted unseen. -/
theorem Sound.unseen {config : Record} {calls : List Call} (ha : p.lastConfig = some config)
    (hd : p.context.defines Script.EntryPoint.start = false) (hl : p.context.Lived calls) :
    Sound p ⟨some config, false, calls⟩ where
  accepted := ha.symm
  configured _ := Option.isSome_iff_exists.mpr ⟨config, ha⟩
  lived := hl
  handed hh := absurd hh Bool.false_ne_true
  started _ hd' := absurd (hd.symm.trans hd') Bool.false_ne_true
  guarded hd' := absurd (hd.symm.trans hd') Bool.false_ne_true

/-- A configuration that the script has taken is the latest one that it knows. -/
theorem Sound.taken {config : Record} {calls : List Call} {call : Call}
    (ha : p.lastConfig = some config) (ht : call.taken? = some config)
    (hl : p.context.Lived (calls ++ [call]))
    (hg : p.context.defines Script.EntryPoint.start → Call.Guarded (calls ++ [call])) :
    Sound p ⟨some config, true, calls ++ [call]⟩ where
  accepted := ha.symm
  configured _ := Option.isSome_iff_exists.mpr ⟨config, ha⟩
  lived := hl
  handed _ := Call.latest_snoc_of_taken ht
  started _ _ := rfl
  guarded := hg

theorem ofManifest_of_createLoaded {manifest : Manifest} {directory : Path} {c : Context}
    {h' : Host}
    (hc : Context.createLoaded manifest.name manifest.language (manifest.scriptPath directory)
      manifest.sandbox h = (.ok c, h')) :
    ofManifest manifest directory h = (.ok ⟨manifest, directory, c, none⟩, h') := by
  unfold ofManifest
  rw [hc]

/-- Handing over a configuration keeps the books right, whatever comes of it. -/
theorem Sound.handOver (hs : Sound p l) {entryPoint : String} {config : Record}
    (hn : Call.HandsOver entryPoint) {result : Except PluginError Unit} {p' : Plugin} {h' : Host}
    (hh : HandedOver entryPoint config p h (result, p', h')) :
    Sound p' (l.handOver config result.isOk (p.context.asked entryPoint [.map config] h)) := by
  have hl := hs.lived.call entryPoint [.map config] h
  have hk := (Context.call_keeps entryPoint [.map config] p.context h).2
  have hg : ∀ worked, p.context.defines Script.EntryPoint.start →
      Call.Guarded (l.calls ++ [⟨entryPoint, [.map config], worked⟩]) := fun worked hd =>
    (hs.guarded hd).snoc fun hm => absurd hm (Call.notMem_dataNames hn)
  cases hh with
  | unseen hm hd =>
    subst hm
    rw [Context.asked_undefined hd]
    change Sound _ ⟨some config, false, l.calls ++ []⟩
    rw [List.append_nil]
    exact Sound.unseen rfl hd hs.lived
  | @taken v c _ hd hc =>
    rw [Context.asked_defined hd, hc] at hl ⊢
    rw [hc] at hk
    exact Sound.taken rfl (Call.taken_of_handsOver hn) hl fun hd' =>
      hg true ((hk _).symm.trans hd')
  | @refused e c _ phase hd hc hp =>
    rw [Context.asked_defined hd, hc] at hl ⊢
    rw [hc] at hk
    -- a failed start ends the phase, and a failed reconfiguration leaves what was accepted before
    have hi : (⟨p.manifest, p.directory, { c with phase := phase }, p.lastConfig⟩ :
        Plugin).isInitialized → p.isInitialized := fun hi => hp (beq_iff_eq.mp hi)
    constructor
    · exact hs.accepted
    · intro hi'
      exact hs.configured (hi hi')
    · exact hl
    · intro hf
      exact (Call.latest_snoc_of_none (Call.taken_of_failed rfl)).trans (hs.handed hf)
    · intro hi' hd'
      exact hs.started (hi hi') ((hk _).symm.trans hd')
    · intro hd'
      exact hg false ((hk _).symm.trans hd')

/-- Asking for data is no configuration, and an initialized plugin has handed its own over. -/
theorem Sound.data (hs : Sound p l) (d : DataRequest) (h : Host) :
    Sound (d.perform p h).2.1 (l.after p h (.data d)) := by
  rw [Ledger.after]
  cases hi : p.isInitialized with
  | false =>
    rw [data_uninitialized hi, if_neg Bool.false_ne_true]
    exact hs
  | true =>
    rw [data_initialized hi, if_pos rfl]
    have hl := hs.lived.call d.entryPoint d.args h
    have hk := (Context.call_keeps d.entryPoint d.args p.context h).2
    cases hd : p.context.defines d.entryPoint with
    | false =>
      rw [Context.asked_undefined hd, List.append_nil] at hl ⊢
      constructor
      · exact hs.accepted
      · intro _
        exact hs.configured hi
      · exact hl
      · exact hs.handed
      · intro _ hd'
        exact hs.started hi ((hk _).symm.trans hd')
      · intro hd'
        exact hs.guarded ((hk _).symm.trans hd')
    | true =>
      rw [Context.asked_defined hd] at hl ⊢
      have hn : ∀ worked, (⟨d.entryPoint, d.args, worked⟩ : Call).taken? = none := fun _ =>
        Call.taken_of_other fun hn => Call.notMem_dataNames hn d.entryPoint_mem
      constructor
      · exact hs.accepted
      · intro _
        exact hs.configured hi
      · exact hl
      · intro hf
        exact (Call.latest_snoc_of_none (hn _)).trans (hs.handed hf)
      · intro _ hd'
        exact hs.started hi ((hk _).symm.trans hd')
      · intro hd'
        have hd := (hk _).symm.trans hd'
        apply (hs.guarded hd).snoc
        intro _
        rw [hs.handed (hs.started hi hd), hs.accepted]
        exact hs.configured hi

theorem reload_stage (p : Plugin) (h : Host) :
    (∃ e host, p.reload h = (.error e, p, host)) ∨
    ∃ next host host', p.context.stage p.reloadConfig h = (.ok next, host) ∧
      p.reload h = (.ok (), { p with
        context := { p.context with
          phase := Context.reloadedPhase p.reloadConfig
          generation := some next } }, host') := by
  rw [Plugin.reload, inContext, ← reloadConfig]
  rcases hs : p.context.stage p.reloadConfig h with ⟨e | next, host⟩
  · rw [Context.reload_error hs]
    exact .inl ⟨e, host, rfl⟩
  · rw [Context.reload_ok hs]
    exact .inr ⟨next, host, _, rfl, rfl⟩

theorem reloadConfig_eq_some {config : Record} :
    p.reloadConfig = some config ↔ p.isInitialized ∧ p.lastConfig = some config := by
  rw [reloadConfig]
  cases p.isInitialized <;> simp

/-- A reload begins a new generation, which is handed the remembered configuration first. -/
theorem Sound.reload (hs : Sound p l) (h : Host) :
    Sound (p.reload h).2.1 (l.after p h .reload) := by
  rw [Ledger.after]
  change Sound _ (if (p.reload h).1.isOk then _ else l)
  rcases reload_stage p h with ⟨e, host, hr⟩ | ⟨next, host, host', hg, hr⟩
  · rw [hr]
    exact hs
  · rw [hr]
    -- neither the calls nor the rest of the books need to know how it was staged
    generalize hc : ({ p.context with
      phase := Context.reloadedPhase p.reloadConfig, generation := some next } : Context) = c
    have hl : c.Lived (c.startCalls p.reloadConfig) := by
      rw [← hc]
      exact Context.lived_of_stage hg rfl
    change Sound { p with context := c } ⟨l.accepted, !(c.startCalls p.reloadConfig).isEmpty,
      c.startCalls p.reloadConfig⟩
    rw [hs.accepted]
    cases hw : p.reloadConfig with
    | none =>
      rw [hw] at hl hc
      refine Sound.blank ?_ hl
      rw [isInitialized, ← hc]
      rfl
    | some config =>
      obtain ⟨-, ha⟩ := reloadConfig_eq_some.mp hw
      rw [hw] at hl
      rw [ha]
      cases hd : c.defines Script.EntryPoint.start with
      | false =>
        rw [Context.startCalls_undefined hd] at hl ⊢
        exact Sound.unseen rfl hd hl
      | true =>
        rw [Context.startCalls_defined hd] at hl ⊢
        refine @Sound.taken _ _ [] _ rfl (Call.taken_of_handsOver (.inl rfl)) hl fun _ => ?_
        apply Call.guarded_nil.snoc
        intro hm
        exact absurd hm (Call.notMem_dataNames (.inl rfl))

theorem Sound.close (hs : Sound p l) (h : Host) :
    Sound (p.close h).1 (l.after p h .close) := by
  have hc : (p.close h).1 = { p with
      context := { p.context with phase := .closed, generation := none } } := by
    rw [← Context.close_generation p.context h]
    rfl
  rw [hc, Ledger.after]
  change Sound _ ⟨l.accepted, false, []⟩
  rw [hs.accepted]
  exact Sound.blank rfl fun g hg => absurd hg (Option.some_ne_none g).symm

/-- Requests one after another, each on a host of its own. -/
def performAll (requests : List (Request × Host)) (state : Plugin × Ledger) : Plugin × Ledger :=
  requests.foldl (fun (p, l) (request, h) => ((perform request p h).2.1, l.after p h request)) state

theorem Reached.performAll (hr : Reached p l) (requests : List (Request × Host)) :
    Reached (performAll requests (p, l)).1 (performAll requests (p, l)).2 := by
  induction requests generalizing p l with
  | nil => exact hr
  | cons r rest ih => exact ih (hr.tail r.1 r.2)

def tunableManifest : Manifest := ⟨"a", "", "1.0.0", none, .javascript, none, [], none, .default⟩

/-- The plugin's context before its script is loaded. -/
def unloadedContext : Context :=
  ⟨"a", .javascript, ⟨true, [.name "provider.js"]⟩, .default, .unloaded, none⟩

/-- A host whose only file is a script. -/
def scriptHost (source : String) : Host :=
  .ofFiles ⟨[(["provider.js"], .file (Utf8.encode source))], []⟩

/-- The outcome of loading the script into a new engine. -/
def scriptLoad (source : String) : Except PluginError Unit × Generation × Host :=
  Context.freshGeneration.load source "provider.js" ((scriptHost source).engineStarted "a")

def scriptPlugin (source : String) : Plugin :=
  ⟨tunableManifest, ⟨true, []⟩,
    { unloadedContext with phase := .loaded, generation := some (scriptLoad source).2.1 }, none⟩

section

variable {source : String}

theorem createGeneration_script : unloadedContext.createGeneration (scriptHost source) =
    (.ok Context.freshGeneration, (scriptHost source).engineStarted "a") := by
  have hp : unloadedContext.scriptPath.parent = FileTree.Place.toPath [] := by decide
  rw [Context.createGeneration, Generation.create, Capabilities.create, SandboxedFile.ofDirectory,
    hp, FileTree.canonical, FileTree.find_top]
  rfl

theorem readScript_script :
    unloadedContext.readScript ((scriptHost source).engineStarted "a") = .ok source := by
  have hr : ((scriptHost source).engineStarted "a").files.readText unloadedContext.scriptPath =
      .ok source :=
    FileTree.readText_top (by decide) (by decide) (by decide) (by decide)
  rw [Context.readScript, hr]
  rfl

theorem load_script (hk : (scriptLoad source).1.isOk) :
    Context.freshGeneration.load source unloadedContext.scriptPath.lastName
        ((scriptHost source).engineStarted "a") =
      (.ok (), (scriptLoad source).2.1, (scriptLoad source).2.2) := by
  have hn : unloadedContext.scriptPath.lastName = "provider.js" := by decide
  rw [hn, ← scriptLoad]
  rcases hl : scriptLoad source with ⟨_ | _, after, host⟩
  · rw [hl] at hk
    cases hk
  · rfl

/-- A script that loads gives a plugin. -/
theorem ofManifest_script (hk : (scriptLoad source).1.isOk) :
    ofManifest tunableManifest ⟨true, []⟩ (scriptHost source) =
      (.ok (scriptPlugin source), (scriptLoad source).2.2) := by
  have hp : tunableManifest.scriptPath ⟨true, []⟩ = unloadedContext.scriptPath := by decide
  have hc : Context.createLoaded tunableManifest.name tunableManifest.language
      (tunableManifest.scriptPath ⟨true, []⟩) tunableManifest.sandbox (scriptHost source) =
      (.ok (scriptPlugin source).context, (scriptLoad source).2.2) := by
    rw [hp]
    exact Context.createLoaded_of_load rfl rfl createGeneration_script readScript_script
      (load_script hk)
  exact ofManifest_of_createLoaded hc

end

/-! ## A script that only reconfiguring tunes -/

/-- A script that answers with its state, which only reconfiguring it sets. -/
def tunableScript : String :=
  "\x7b\"entries\":[[\"fetchData\",[\"list\",[[\"state\"]]]],[\"serializeKey\",[\"x\"]]," ++
    "[\"serializeValue\",[\"x\"]],[\"reconfigure\",[\"set\",[\"arg\",0]]]]\x7d"

def tunableHost : Host := .ofFiles ⟨[(["provider.js"], .file (Utf8.encode tunableScript))], []⟩

/-- The outcome of loading the script into a new engine. -/
def tunableLoad : Except PluginError Unit × Generation × Host :=
  Context.freshGeneration.load tunableScript "provider.js" (tunableHost.engineStarted "a")

def tunablePlugin : Plugin :=
  ⟨tunableManifest, ⟨true, []⟩,
    { unloadedContext with phase := .loaded, generation := some tunableLoad.2.1 }, none⟩

theorem tunableLoad_eq : tunableLoad = scriptLoad tunableScript := by
  rw [tunableLoad, scriptLoad, tunableHost, scriptHost]

theorem ofManifest_tunable :
    ofManifest tunableManifest ⟨true, []⟩ tunableHost = (.ok tunablePlugin, tunableLoad.2.2) := by
  have hp : tunablePlugin = scriptPlugin tunableScript := by
    rw [tunablePlugin, scriptPlugin, tunableLoad_eq]
  rw [hp, tunableLoad_eq]
  exact @ofManifest_script tunableScript (by decide +kernel)

def labelled (label : String) : Record := [("label", .text label)]

end Plugin

end TrieFeed
