import TrieFeed.Proofs.Plugin.Configuration
import TrieFeed.Proofs.Plugin.Listed
/-!
# Engines that a plugin keeps

Opening a plugin, reloading it and asking something aside each start an engine. However they end, the
plugin has one engine running afterwards if its context has a generation, and none otherwise.
-/
namespace TrieFeed

open List (Perm)

namespace Context

/-- The providers of the engines that a context keeps running. -/
def engines (c : Context) : List String := (c.generation.map (·.provider)).toList

/-- The engines that run are those of the context, which are its provider's, and those of others. -/
structure Accounted (provider : String) (others : List String) (c : Context) (h : Host) : Prop where
  belongs : c.provider = provider
  owned : ∀ name ∈ c.engines, name = provider
  engines : h.engines.Perm (c.engines ++ others)

variable {provider : String} {others : List String} {c c' : Context} {h h' : Host}

theorem Accounted.of_kept (hr : Accounted provider others c h) (hp : c'.provider = c.provider)
    (hc : c'.engines = c.engines) (he : h'.engines = h.engines) :
    Accounted provider others c' h' where
  belongs := hp.trans hr.belongs
  owned := hc ▸ hr.owned
  engines := by
    rw [he, hc]
    exact hr.engines

theorem Accounted.count (hr : Accounted provider others c h) : h.engines.count provider =
    (if c.generation.isSome then 1 else 0) + others.count provider := by
  have ho := hr.owned
  rw [hr.engines.count_eq, List.count_append]
  congr 1
  rw [Context.engines] at ho ⊢
  cases hg : c.generation with
  | none => rfl
  | some g =>
    rw [hg] at ho
    have hp : g.provider = provider := ho g.provider List.mem_cons_self
    rw [← hp]
    exact List.count_singleton_self

/-- A host that runs the context's engine among others. -/
theorem exists_accounted (hp : c.provider = provider) (ho : ∀ name ∈ c.engines, name = provider)
    (he : (if c.generation.isSome then 1 else 0) ≤ h.engines.count provider) :
    ∃ others, Accounted provider others c h := by
  cases hg : c.generation with
  | none => exact ⟨h.engines, hp, ho, by rw [engines, hg]; rfl⟩
  | some g =>
    have hn : c.engines = [provider] := by
      rw [engines, hg] at ho ⊢
      exact congrArg (fun name => [name]) (ho g.provider List.mem_cons_self)
    rw [hg] at he
    have hm : provider ∈ h.engines := List.count_pos_iff.mp he
    exact ⟨h.engines.erase provider, hp, ho, hn ▸ List.perm_cons_erase hm⟩

/-! ## Work of a context -/

theorem call_kept (entryPoint : String) (args : List Value) (c : Context) (h : Host) :
    (c.call entryPoint args h).2.1.provider = c.provider ∧
      (c.call entryPoint args h).2.1.engines = c.engines ∧
      (c.call entryPoint args h).2.2.engines = h.engines := by
  rw [call]
  split
  · exact ⟨rfl, rfl, rfl⟩
  · rename_i g hg
    split
    · obtain ⟨hp, he⟩ := g.call_engines entryPoint args h
      refine ⟨rfl, ?_, he⟩
      rw [engines, engines, hg]
      exact congrArg (fun name => [name]) hp
    · exact ⟨rfl, rfl, rfl⟩

theorem Accounted.call (hr : Accounted provider others c h) (entryPoint : String)
    (args : List Value) :
    Accounted provider others (c.call entryPoint args h).2.1 (c.call entryPoint args h).2.2 := by
  obtain ⟨hp, hc, he⟩ := c.call_kept entryPoint args h
  exact hr.of_kept hp hc he

theorem Accounted.start (hr : Accounted provider others c h) (config : Record) :
    Accounted provider others (c.start config h).2.1 (c.start config h).2.2 := by
  cases hd : c.defines Script.EntryPoint.start with
  | false =>
    rw [start_undefined hd]
    exact hr.of_kept rfl rfl rfl
  | true =>
    have hc := hr.call Script.EntryPoint.start [.map config]
    rw [start_defined hd]
    rcases hw : c.call Script.EntryPoint.start [.map config] h with ⟨_ | _, after, host⟩ <;>
      · rw [hw] at hc
        exact hc.of_kept rfl rfl rfl

theorem Accounted.load (hr : Accounted provider others c h) :
    Accounted provider others (c.load h).2.1 (c.load h).2.2 := by
  rw [Context.load]
  split
  · exact hr.of_kept rfl rfl rfl
  · exact hr.of_kept rfl rfl rfl
  · rename_i source g _ hg
    obtain ⟨hp, he⟩ := g.load_engines source c.scriptPath.lastName h
    have hc : [(g.load source c.scriptPath.lastName h).2.1.provider] = c.engines := by
      rw [Context.engines, hg, hp]
      rfl
    rcases hl : g.load source c.scriptPath.lastName h with ⟨_ | _, after, host⟩ <;>
      · rw [hl] at hc he
        exact hr.of_kept rfl hc he

/-- Closing a context stops its engine, and leaves those of others. -/
theorem Accounted.close (hr : Accounted provider others c h) :
    Accounted provider others (c.close h).1 (c.close h).2 := by
  have he := hr.engines
  rw [Context.engines] at he
  refine ⟨?_, ?_, ?_⟩
  · rw [close_generation]
    exact hr.belongs
  · rw [close_generation]
    exact fun name hn => absurd hn List.not_mem_nil
  · rw [close_generation, close_engines]
    cases hg : c.generation with
    | none =>
      rw [hg] at he
      exact he
    | some g =>
      rw [hg] at he
      exact (he.erase g.provider).trans (.of_eq (List.erase_cons_head ..))

theorem Accounted.engines_of_close (hr : Accounted provider others c h) :
    (c.close h).2.engines.Perm others := by
  have he := hr.close.engines
  rw [close_generation] at he
  exact he

theorem stage_provider {config : Option Record} {next : Generation}
    (hs : c.stage config h = (.ok next, h')) : next.provider = c.provider := by
  obtain ⟨source, fresh, host, -, hg, hp⟩ := exists_of_stage hs
  have hfresh : fresh.provider = c.provider := by
    rcases Generation.create_engines c.provider c.language c.scriptPath.parent c.sandbox h with
      ⟨e, hg'⟩ | ⟨g, hg', hprovider⟩
    · cases hg'.symm.trans hg
    · cases hg'.symm.trans hg
      exact hprovider
  have hk := fresh.prepare_engines source c.scriptPath.lastName config host
  rw [hp] at hk
  exact hk.1.trans hfresh

/-- A reload ends one engine for the one that it keeps, which is the live one if it fails. -/
theorem Accounted.reload (hr : Accounted provider others c h) (config : Option Record) :
    Accounted provider others (c.reload config h).2.1 (c.reload config h).2.2 := by
  rcases stage_engines config c h with ⟨e, host, hs, he⟩ | ⟨next, host, hs, he⟩
  · rw [reload_error hs]
    exact hr.of_kept rfl rfl he
  · have hp := (stage_provider hs).trans hr.belongs
    have hall := hr.engines
    rw [reload_ok hs]
    refine ⟨hr.belongs, fun name hn => ?_, ?_⟩
    · rw [List.mem_singleton.mp hn]
      exact hp
    · rw [Context.engines] at hall
      have hnext : Perm (host.engines) (next.provider :: h.engines) := by
        rw [he, stage_provider hs]
      cases hg : c.generation with
      | none =>
        rw [hg] at hall
        exact hnext.trans (hall.cons next.provider)
      | some g =>
        have hown : g.provider = next.provider := by
          rw [hp]
          exact hr.owned g.provider (by rw [Context.engines, hg]; exact List.mem_cons_self)
        rw [hg] at hall
        change Perm (host.engines.erase g.provider) (next.provider :: others)
        refine (hnext.erase g.provider).trans ?_
        rw [hown, List.erase_cons_head]
        exact hown ▸ hall

/-! ## Contexts that are opened -/

theorem accounted_of_create {language : Language} {scriptPath : Path} {sandbox : Sandbox}
    (hc : create provider language scriptPath sandbox h = (.ok c, h')) :
    Accounted provider h.engines c h' := by
  rw [create] at hc
  dsimp only at hc
  rcases Generation.create_engines provider language scriptPath.parent sandbox h with
    ⟨e, hg⟩ | ⟨g, hg, hp⟩
  · rw [createGeneration, hg] at hc
    cases hc
  · rw [createGeneration, hg] at hc
    cases hc
    refine ⟨rfl, fun name hn => ?_, ?_⟩
    · rw [List.mem_singleton.mp hn]
      exact hp
    · change Perm (provider :: h.engines) (g.provider :: h.engines)
      rw [hp]

/-- A context that is opened has one engine, and one that is not has left none behind. -/
theorem createLoaded_accounted (provider : String) (language : Language) (scriptPath : Path)
    (sandbox : Sandbox) (h : Host) :
    (∃ e host, createLoaded provider language scriptPath sandbox h = (.error e, host) ∧
      host.engines.Perm h.engines) ∨
    ∃ c host, createLoaded provider language scriptPath sandbox h = (.ok c, host) ∧
      Accounted provider h.engines c host := by
  rw [createLoaded]
  rcases hc : create provider language scriptPath sandbox h with ⟨e | c, host⟩
  · refine .inl ⟨e, host, rfl, ?_⟩
    rw [create] at hc
    dsimp only at hc
    rcases Generation.create_engines provider language scriptPath.parent sandbox h with
      ⟨e', hg⟩ | ⟨g, hg, -⟩
    · rw [createGeneration, hg] at hc
      cases hc
      exact .refl _
    · rw [createGeneration, hg] at hc
      cases hc
  · have hl := (accounted_of_create hc).load
    dsimp only
    rcases hw : c.load host with ⟨e | _, after, host'⟩
    · rw [hw] at hl
      exact .inl ⟨e, _, rfl, hl.engines_of_close⟩
    · rw [hw] at hl
      exact .inr ⟨after, host', rfl, hl⟩

end Context

namespace Plugin

variable {manifest : Manifest} {others : List String} {p : Plugin} {h : Host}

/-- All that can be asked of a plugin. -/
inductive Operation where
  | request (r : Request)
  | schema
  | connectionSchema
  | test (config : Record)

/-- Does what is asked, and says whether it worked. -/
def Operation.perform : Operation → Step Unit
  | .request r => Plugin.perform r
  | .schema => reading (fun _ => .ok ()) (schemaFrom Script.EntryPoint.schema)
  | .connectionSchema => reading (fun _ => .ok ()) (schemaFrom Script.EntryPoint.connectionSchema)
  | .test config => reading (fun _ => .ok ()) (Plugin.test config)

/-- The plugin of a manifest, whose engine runs among those of others. -/
structure Accounted (manifest : Manifest) (others : List String) (p : Plugin) (h : Host) : Prop where
  belongs : p.manifest = manifest
  context : p.context.Accounted manifest.name others h

/-! ## Requests -/

theorem Accounted.data (hr : Accounted manifest others p h) (d : DataRequest) :
    Accounted manifest others (d.perform p h).2.1 (d.perform p h).2.2 := by
  cases hi : p.isInitialized with
  | false =>
    rw [data_uninitialized hi]
    exact hr
  | true =>
    rw [data_initialized hi, data_host hi]
    exact ⟨hr.belongs, hr.context.call d.entryPoint d.args⟩

/-- Handing over a configuration is a call of the live script, or none. -/
theorem Accounted.handOver (hr : Accounted manifest others p h) {entryPoint : String} {config : Record}
    {after : Except PluginError Unit × Plugin × Host}
    (ho : HandedOver entryPoint config p h after) : Accounted manifest others after.2.1 after.2.2 := by
  have hc := hr.context.call entryPoint [.map config]
  cases ho with
  | unseen hs hd => exact ⟨hr.belongs, hr.context.of_kept rfl rfl rfl⟩
  | taken hd ht =>
    rw [ht] at hc
    exact ⟨hr.belongs, hc.of_kept rfl rfl rfl⟩
  | refused hd ht hp =>
    rw [ht] at hc
    exact ⟨hr.belongs, hc.of_kept rfl rfl rfl⟩

theorem Accounted.request (hr : Accounted manifest others p h) (r : Request) :
    Accounted manifest others (perform r p h).2.1 (perform r p h).2.2 := by
  cases r with
  | start config =>
    have ho := start_handedOver config p h
    rw [perform]
    exact hr.handOver ho
  | reconfigure config =>
    have ho := reconfigure_handedOver config p h
    rw [perform]
    exact hr.handOver ho
  | reload =>
    have hc := hr.context.reload (if p.isInitialized then p.lastConfig else none)
    rw [perform]
    exact ⟨hr.belongs, hc⟩
  | close =>
    have hc := hr.context.close
    rw [perform]
    exact ⟨hr.belongs, hc⟩
  | data d =>
    rw [perform]
    exact hr.data d

/-! ## Asking aside -/

/-- A context of its own is closed again, whatever came of the question. -/
theorem askAside_engines (entryPoint : String) (args : List Value) (p : Plugin) (h : Host) :
    (p.askAside entryPoint args h).2.engines.Perm h.engines := by
  have hrun := Context.createLoaded_accounted p.name p.manifest.language p.scriptPath
    p.manifest.sandbox h
  unfold askAside
  rcases hc : Context.createLoaded p.name p.manifest.language p.scriptPath p.manifest.sandbox h
    with ⟨e | c, host⟩ <;> rw [hc] at hrun
  · rcases hrun with ⟨_, _, hw, he⟩ | ⟨_, _, hw, -⟩ <;> cases hw
    exact he
  · rcases hrun with ⟨_, _, hw, -⟩ | ⟨_, _, hw, hr⟩ <;> cases hw
    dsimp only
    split
    · exact (hr.call entryPoint args).engines_of_close
    · exact hr.engines_of_close

theorem schemaFrom_kept (entryPoint : String) (p : Plugin) (h : Host) :
    (schemaFrom entryPoint p h).2.1 = p ∧
      (schemaFrom entryPoint p h).2.2.engines.Perm h.engines :=
  ⟨rfl, p.askAside_engines entryPoint [] h⟩

theorem test_kept (config : Record) (p : Plugin) (h : Host) :
    (p.test config h).2.1 = p ∧ (p.test config h).2.2.engines.Perm h.engines := by
  have he := p.askAside_engines Script.EntryPoint.test [.map config] h
  unfold test
  split <;>
    · rename_i ha
      rw [ha] at he
      exact ⟨rfl, he⟩

theorem Accounted.aside (hr : Accounted manifest others p h) {after : Plugin × Host}
    (hk : after.1 = p ∧ after.2.engines.Perm h.engines) :
    Accounted manifest others after.1 after.2 := by
  rw [hk.1]
  exact ⟨hr.belongs, hr.context.belongs, hr.context.owned, hk.2.trans hr.context.engines⟩

/-- No operation leaves an engine behind or stops one of another. -/
theorem Accounted.perform (hr : Accounted manifest others p h) (op : Operation) :
    Accounted manifest others (op.perform p h).2.1 (op.perform p h).2.2 := by
  cases op with
  | request r => exact hr.request r
  | schema =>
    rw [Operation.perform, reading_snd]
    exact hr.aside (schemaFrom_kept Script.EntryPoint.schema p h)
  | connectionSchema =>
    rw [Operation.perform, reading_snd]
    exact hr.aside (schemaFrom_kept Script.EntryPoint.connectionSchema p h)
  | test config =>
    rw [Operation.perform, reading_snd]
    exact hr.aside (test_kept config p h)

/-- Only closing takes the engine of a plugin away. -/
theorem Operation.perform_generation {op : Operation} (hn : op ≠ .request .close)
    (hg : p.context.generation.isSome) (h : Host) :
    (op.perform p h).2.1.context.generation.isSome := by
  have hcall : ∀ entryPoint args, (p.context.call entryPoint args h).2.1.generation.isSome := by
    intro entryPoint args
    have hk := congrArg List.length (p.context.call_kept entryPoint args h).2.1
    rw [Context.engines, Context.engines, Option.length_toList, Option.length_toList,
      Option.isSome_map, Option.isSome_map, if_pos hg] at hk
    split at hk
    · assumption
    · cases hk
  have hhand : ∀ {entryPoint config after}, HandedOver entryPoint config p h after →
      after.2.1.context.generation.isSome := by
    intro entryPoint config after ho
    have hc := hcall entryPoint [.map config]
    cases ho with
    | unseen hs hd => exact hg
    | taken hd ht | refused hd ht hp =>
      rw [ht] at hc
      exact hc
  cases op with
  | request r =>
    rw [perform]
    cases r with
    | start config =>
      have ho := start_handedOver config p h
      rw [Plugin.perform]
      exact hhand ho
    | reconfigure config =>
      have ho := reconfigure_handedOver config p h
      rw [Plugin.perform]
      exact hhand ho
    | reload =>
      rw [Plugin.perform, reload, inContext]
      rcases p.context.reload_cases (if p.isInitialized then p.lastConfig else none) h with
        ⟨e, host, hr⟩ | ⟨next, host, -, hr⟩
      · rw [hr]
        exact hg
      · rw [hr]
        rfl
    | close => exact absurd rfl hn
    | data d =>
      rw [Plugin.perform]
      cases hi : p.isInitialized with
      | false =>
        rw [data_uninitialized hi]
        exact hg
      | true =>
        rw [data_initialized hi]
        exact hcall ..
  | schema => exact hg
  | connectionSchema => exact hg
  | test config =>
    rw [perform, reading_snd, (test_kept config p h).1]
    exact hg

/-! ## Plugins that are opened -/

theorem ofManifest_accounted (manifest : Manifest) (directory : Path) (h : Host) :
    (∃ e host, ofManifest manifest directory h = (.error e, host) ∧
      host.engines.Perm h.engines) ∨
    ∃ p host, ofManifest manifest directory h = (.ok p, host) ∧
      Accounted manifest h.engines p host := by
  unfold ofManifest
  rcases Context.createLoaded_accounted manifest.name manifest.language
    (manifest.scriptPath directory) manifest.sandbox h with ⟨e, host, hc, he⟩ | ⟨c, host, hc, hr⟩
  · rw [hc]
    exact .inl ⟨e, host, rfl, he⟩
  · rw [hc]
    exact .inr ⟨_, host, rfl, rfl, hr⟩

/-- A plugin after any operations, with the engines of its name that run for others. In between the
host may change in every way, and others may start and stop engines. -/
inductive Served (manifest : Manifest) : Plugin → Host → Nat → Prop where
  | opened {directory h p h'} (ho : ofManifest manifest directory h = (.ok p, h')) :
      Served manifest p h' (h.engines.count manifest.name)
  | tail {p h n} (before : Served manifest p h n) (op : Operation) (world : Host) (m : Nat)
      (hw : world.engines.count manifest.name + n = h.engines.count manifest.name + m) :
      Served manifest (op.perform p world).2.1 (op.perform p world).2.2 m

theorem Served.accounted {n : Nat} (hs : Served manifest p h n) :
    ∃ others, others.count manifest.name = n ∧ Accounted manifest others p h := by
  induction hs with
  | @opened directory h p h' ho =>
    rcases ofManifest_accounted manifest directory h with ⟨e, host, hm, -⟩ | ⟨q, host, hm, hr⟩
    · cases hm.symm.trans ho
    · cases hm.symm.trans ho
      exact ⟨h.engines, rfl, hr⟩
  | @tail p h n before op world m hw ih =>
    obtain ⟨others, hn, hr⟩ := ih
    have hc := hr.context.count
    obtain ⟨around, ha⟩ := Context.exists_accounted (h := world) hr.context.belongs
      hr.context.owned (by omega)
    have hm := ha.count
    exact ⟨around, by omega, Accounted.perform ⟨hr.belongs, ha⟩ op⟩

/-- An opening that fails leaves no engine behind, and one that works leaves one. After any operations
on the plugin, and however each of them ended, it has one engine if its context has a generation and
none otherwise; the next operation keeps the engines of all others. A generation once there is given
up by closing only. -/
theorem engines_accounted (manifest : Manifest) :
    (∀ directory h e host, ofManifest manifest directory h = (.error e, host) →
      host.engines.Perm h.engines) ∧
    (∀ directory h e host, ofDirectory directory h = (.error e, host) →
      host.engines.Perm h.engines) ∧
    (∀ directory h p host, ofManifest manifest directory h = (.ok p, host) →
      p.context.generation.isSome ∧ host.engines.Perm (manifest.name :: h.engines)) ∧
    (∀ (p : Plugin) (op : Operation) h, p.context.generation.isSome →
      ((op.perform p h).2.1.context.generation = none ↔ op = .request .close)) ∧
    ∀ p h n, Served manifest p h n →
      h.engines.count manifest.name = (if p.context.generation.isSome then 1 else 0) + n ∧
      ∀ (op : Operation) (world : Host),
        (if p.context.generation.isSome then 1 else 0) ≤ world.engines.count manifest.name →
        ∃ others, world.engines.Perm (p.context.engines ++ others) ∧
          (op.perform p world).2.2.engines.Perm
            ((op.perform p world).2.1.context.engines ++ others) := by
  have hfailed : ∀ manifest directory h e host, ofManifest manifest directory h = (.error e, host) →
      host.engines.Perm h.engines := by
    intro manifest directory h e host ho
    rcases ofManifest_accounted manifest directory h with ⟨_, _, hm, he⟩ | ⟨_, _, hm, -⟩ <;>
      cases hm.symm.trans ho
    exact he
  refine ⟨hfailed manifest, fun directory h e host ho => ?_, fun directory h p host ho => ?_,
    fun p op h hg => ⟨fun hn => ?_, ?_⟩, fun p h n hs => ?_⟩
  · unfold ofDirectory at ho
    cases hl : Manifest.load h.files directory with
    | error e' =>
      rw [hl] at ho
      cases ho
      exact .refl _
    | ok manifest =>
      rw [hl] at ho
      exact hfailed manifest directory h e host ho
  · rcases ofManifest_accounted manifest directory h with ⟨_, _, hm, -⟩ | ⟨_, _, hm, hr⟩ <;>
      cases hm.symm.trans ho
    have hg := (opened_of_ofManifest ho).2
    refine ⟨hg, ?_⟩
    obtain ⟨g, hg⟩ := Option.isSome_iff_exists.mp hg
    have hn : p.context.engines = [g.provider] := by
      rw [Context.engines, hg]
      rfl
    have hp := hr.context.owned g.provider (by rw [hn]; exact List.mem_singleton_self _)
    have he := hr.context.engines
    rw [hn, hp] at he
    exact he
  · by_contra hc
    have hk := Operation.perform_generation hc hg h
    rw [hn] at hk
    cases hk
  · rintro rfl
    exact congrArg Context.generation (p.context.close_generation h)
  · obtain ⟨others, hn, hr⟩ := hs.accounted
    refine ⟨hn ▸ hr.context.count, fun op world hw => ?_⟩
    obtain ⟨around, ha⟩ := Context.exists_accounted (h := world) hr.context.belongs
      hr.context.owned hw
    exact ⟨around, ha.engines, (Accounted.perform ⟨hr.belongs, ha⟩ op).context.engines⟩

/-- Operations one after another, on one host. -/
def operated (ops : List Operation) (state : Plugin × Host) : Plugin × Host :=
  ops.foldl (fun (p, h) op => (op.perform p h).2) state

theorem Served.operated {n : Nat} (hs : Served manifest p h n) (ops : List Operation) :
    Served manifest (operated ops (p, h)).1 (operated ops (p, h)).2 n := by
  induction ops generalizing p h with
  | nil => exact hs
  | cons op rest ih => exact ih (hs.tail op h n rfl)

theorem operated_generation {ops : List Operation} (hn : ∀ op ∈ ops, op ≠ .request .close)
    (hg : p.context.generation.isSome) : (operated ops (p, h)).1.context.generation.isSome := by
  induction ops generalizing p h with
  | nil => exact hg
  | cons op rest ih =>
    obtain ⟨ho, hr⟩ := List.forall_mem_cons.mp hn
    exact ih hr (op.perform_generation ho hg h)

/-- A host with a script that is none. -/
def brokenHost : Host := .ofFiles ⟨[(["provider.js"], .file (Utf8.encode "x"))], []⟩

/-- The engine of a script that does not load has been started before. -/
theorem ofManifest_broken : (ofManifest tunableManifest ⟨true, []⟩ brokenHost).1.isOk = false := by
  let fresh : Context := { unloadedContext with generation := some Context.freshGeneration }
  let started : Host := brokenHost.engineStarted "a"
  have hp : tunableManifest.scriptPath ⟨true, []⟩ = unloadedContext.scriptPath := by decide
  have hc : Context.create "a" .javascript unloadedContext.scriptPath .default brokenHost =
      (.ok fresh, started) := by
    cbv
  have hs : fresh.readScript started = .ok "x" := by
    have hr : started.files.readText fresh.scriptPath = .ok "x" :=
      FileTree.readText_top (by decide) (by decide) (by decide) (by decide)
    rw [Context.readScript, hr]
    rfl
  have hl : (Context.freshGeneration.load "x" fresh.scriptPath.lastName started).1.isOk =
      false := by
    decide +kernel
  unfold ofManifest Context.createLoaded
  rw [hp, tunableManifest, hc]
  dsimp only
  unfold Context.load
  rw [hs]
  dsimp only [fresh]
  rcases hw : Context.freshGeneration.load "x" fresh.scriptPath.lastName started with
    ⟨_ | _, g, host⟩
  · rfl
  · rw [hw] at hl
    cases hl

/-- Everything but closing, of a plugin whose script answers with its state. -/
def variedOperations : List Operation :=
  [.schema, .request (.start (labelled "a")), .test (labelled "b"), .connectionSchema,
    .request (.data (.fetch [])), .request .reload, .request (.reconfigure (labelled "c"))]

def varied : Plugin × Host := operated variedOperations (tunablePlugin, tunableLoad.2.2)

def variedClosed : Plugin × Host := ((Operation.request .close).perform varied.1 varied.2).2

/-- A plugin that nobody else has the name of has one engine until it is closed, and one that cannot
be opened has none. -/
theorem engines_accounted_varied :
    (∃ e host, ofManifest tunableManifest ⟨true, []⟩ brokenHost = (.error e, host) ∧
      host.engines.Perm []) ∧
    Served tunableManifest varied.1 varied.2 0 ∧ varied.1.context.generation.isSome ∧
    varied.2.engines.count "a" = 1 ∧
    Served tunableManifest variedClosed.1 variedClosed.2 0 ∧
    variedClosed.1.context.generation = none ∧ variedClosed.2.engines.count "a" = 0 := by
  obtain ⟨hf, -, ho, hk, ha⟩ := engines_accounted tunableManifest
  have hs : Served tunableManifest varied.1 varied.2 0 :=
    (Served.opened ofManifest_tunable).operated variedOperations
  have hopen := (ho _ _ _ _ ofManifest_tunable).1
  have hnone : ∀ op ∈ variedOperations, op ≠ .request .close := by
    simp [variedOperations]
  have hg := operated_generation (h := tunableLoad.2.2) hnone hopen
  rw [← varied] at hg
  have hc := hs.tail (.request .close) varied.2 0 (Eq.refl _)
  have hn := (hk varied.1 (.request .close) varied.2 hg).mpr rfl
  rw [← variedClosed] at hc hn
  have he := ofManifest_broken
  refine ⟨?_, hs, hg, ?_, hc, hn, ?_⟩
  · rcases ho : ofManifest tunableManifest ⟨true, []⟩ brokenHost with ⟨e | p, host⟩
    · exact ⟨e, host, rfl, hf _ _ e host ho⟩
    · rw [ho] at he
      cases he
  · have h := (ha _ _ _ hs).1
    rw [hg] at h
    exact h
  · have h := (ha _ _ _ hc).1
    rw [hn] at h
    exact h

end Plugin

end TrieFeed
