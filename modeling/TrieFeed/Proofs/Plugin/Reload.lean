import Mathlib
import TrieFeed.Plugin.Basic
import TrieFeed.Proofs.Files.Tree
import TrieFeed.Proofs.Plugin.Generation
/-!
# Reloads are all or nothing

A reload that fails at any of its steps leaves the context as it was, and one that works leaves
nothing of the generation that was there.
-/
namespace TrieFeed

open Script (Program Module)

namespace Context

/-! ## The steps of staging -/

section

variable {c : Context} {config : Option Record} {h host host' : Host} {source : String}
  {fresh next : Generation} {e : PluginError}

theorem stage_unread (hs : c.readScript h = .error e) : c.stage config h = (.error e, h) := by
  rw [stage, hs]

theorem stage_uncreated (hs : c.readScript h = .ok source)
    (hg : c.createGeneration h = (.error e, host)) : c.stage config h = (.error e, host) := by
  rw [stage, hs]
  dsimp only
  rw [hg]

theorem stage_unprepared (hs : c.readScript h = .ok source)
    (hg : c.createGeneration h = (.ok fresh, host))
    (hp : fresh.prepare source c.scriptPath.lastName config host = (.error e, next, host')) :
    c.stage config h = (.error e, next.stop host') := by
  rw [stage, hs]
  dsimp only
  rw [hg]
  dsimp only
  rw [hp]

theorem stage_prepared (hs : c.readScript h = .ok source)
    (hg : c.createGeneration h = (.ok fresh, host))
    (hp : fresh.prepare source c.scriptPath.lastName config host = (.ok (), next, host')) :
    c.stage config h = (.ok next, host') := by
  rw [stage, hs]
  dsimp only
  rw [hg]
  dsimp only
  rw [hp]

/-- What is staged has been read, given an engine and prepared. -/
theorem exists_of_stage (hs : c.stage config h = (.ok next, host')) :
    ∃ source fresh host, c.readScript h = .ok source ∧
      c.createGeneration h = (.ok fresh, host) ∧
      fresh.prepare source c.scriptPath.lastName config host = (.ok (), next, host') := by
  cases hr : c.readScript h with
  | error e => cases (stage_unread hr).symm.trans hs
  | ok source =>
    rcases hg : c.createGeneration h with ⟨e | fresh, host⟩
    · cases (stage_uncreated hr hg).symm.trans hs
    · rcases hp : fresh.prepare source c.scriptPath.lastName config host with ⟨e | _, after, host''⟩
      · cases (stage_unprepared hr hg hp).symm.trans hs
      · cases (stage_prepared hr hg hp).symm.trans hs
        exact ⟨source, fresh, host, rfl, rfl, hp⟩

end

/-! ## Reloads -/

/-- Where a reload can fail, with the error of that step. -/
inductive ReloadFault (c : Context) (config : Option Record) (h : Host) : PluginError → Prop where
  | unreadable {e} (hs : c.readScript h = .error e) : ReloadFault c config h e
  | noEngine {e source host} (hs : c.readScript h = .ok source)
      (hg : c.createGeneration h = (.error e, host)) : ReloadFault c config h e
  | notPrepared {e source fresh host} (hs : c.readScript h = .ok source)
      (hg : c.createGeneration h = (.ok fresh, host))
      (hp : fresh.PreparationFault source c.scriptPath.lastName config host e) :
      ReloadFault c config h e

variable {c : Context} {config : Option Record} {h : Host} {e : PluginError} {next : Generation}

/-- A generation that runs the script as it is now: evaluated by itself in a new engine, complete,
and started if there is a configuration. -/
structure Renewed (c : Context) (config : Option Record) (h : Host) (next : Generation) : Prop where
  evaluated : ∃ source script fresh m capabilities state host host' host'',
    c.readScript h = .ok source ∧ Program.read? source = some script ∧
    c.createGeneration h = (.ok fresh, host) ∧
    (Module.load script).run ⟨fresh.engine.capabilities, host, .undefined⟩ =
      (.ok m, ⟨capabilities, host', state⟩) ∧
    Generation.StartsWith config ⟨⟨capabilities, some m, fresh.engine.closed⟩, m.entryPoints⟩
      host' next host'' ∧
    next.entryPoints = m.entryPoints ∧ next.engine.module.map (·.exports) = some m.exports
  complete : next.Complete

theorem Renewed.of_load {source : String} {fresh loaded : Generation} {host host' host'' : Host}
    (hs : c.readScript h = .ok source) (hg : c.createGeneration h = (.ok fresh, host))
    (hl : fresh.load source c.scriptPath.lastName host = (.ok (), loaded, host'))
    (hc : loaded.Complete) (hw : loaded.StartsWith config host' next host'') :
    c.Renewed config h next := by
  obtain ⟨hl, hn⟩ := Generation.load_eq_ok hl
  obtain ⟨script, m, capabilities, state, hp, hm, he⟩ := Script.Engine.load_eq_ok hl
  obtain ⟨hk, hx⟩ := hw.keeps
  obtain ⟨engine, names⟩ := loaded
  dsimp only at hn he
  subst he hn
  constructor
  · exact ⟨source, script, fresh, m, capabilities, state, host, host', host'', hs, hp, hg, hm, hw,
      hk, hx⟩
  · intro name hr
    rw [Generation.defines, hk]
    exact hc name hr

/-- Staging either fails at one of its steps or yields a generation of the script as it is now. -/
theorem stage_cases (config : Option Record) (c : Context) (h : Host) :
    (∃ e host, c.stage config h = (.error e, host) ∧ c.ReloadFault config h e) ∨
    ∃ next host, c.stage config h = (.ok next, host) ∧ c.Renewed config h next := by
  cases hs : c.readScript h with
  | error e => exact .inl ⟨e, h, stage_unread hs, .unreadable hs⟩
  | ok source =>
    rcases hg : c.createGeneration h with ⟨_ | fresh, host⟩
    · exact .inl ⟨_, _, stage_uncreated hs hg, .noEngine hs hg⟩
    · rcases Generation.prepare_cases source c.scriptPath.lastName config fresh host with
        ⟨e, after, host', hp, hf⟩ | ⟨loaded, next, host', host'', hp, hl, hc, hw⟩
      · exact .inl ⟨_, _, stage_unprepared hs hg hp, .notPrepared hs hg hf⟩
      · exact .inr ⟨_, _, stage_prepared hs hg hp, .of_load hs hg hl hc hw⟩

theorem renewed_of_stage {host : Host} (hs : c.stage config h = (.ok next, host)) :
    c.Renewed config h next := by
  rcases stage_cases config c h with ⟨e, host', hs', -⟩ | ⟨next', host', hs', hn⟩
  · cases hs.symm.trans hs'
  · cases hs.symm.trans hs'
    exact hn

theorem ReloadFault.error (hf : c.ReloadFault config h e) : (c.stage config h).1 = .error e := by
  cases hf with
  | unreadable hs => rw [stage_unread hs]
  | noEngine hs hg => rw [stage_uncreated hs hg]
  | notPrepared hs hg hp =>
    have he := hp.error
    rcases hr : Generation.prepare _ _ config _ _ with ⟨_ | _, after, host⟩
    · rw [hr] at he
      cases he
      rw [stage_unprepared hs hg hr]
    · rw [hr] at he
      cases he

theorem stage_error_iff : (c.stage config h).1 = .error e ↔ c.ReloadFault config h e := by
  constructor
  · intro hr
    rcases stage_cases config c h with ⟨e', host, hs, hf⟩ | ⟨next, host, hs, -⟩
    · rw [hs] at hr
      cases hr
      exact hf
    · rw [hs] at hr
      cases hr
  · exact ReloadFault.error

/-- The phase and the live generation have no part in what is staged. -/
theorem stage_alike (config : Option Record) (c : Context) (h : Host) (phase : Phase)
    (generation : Option Generation) :
    stage config { c with phase, generation } h = c.stage config h := rfl

theorem reload_error {host : Host} (hs : c.stage config h = (.error e, host)) :
    c.reload config h = (.error e, c, host) := by
  have hm := (stage_alike config c h .reloading c.generation).trans hs
  rw [reload]
  dsimp only
  rw [hm]

theorem reload_ok {host : Host} (hs : c.stage config h = (.ok next, host)) :
    c.reload config h = (.ok (),
      { c with generation := some next, phase := reloadedPhase config },
      c.generation.elim host fun g => g.stop host) := by
  have hm := (stage_alike config c h .reloading c.generation).trans hs
  rw [reload]
  dsimp only
  rw [hm]

theorem reload_error_iff : (c.reload config h).1 = .error e ↔ c.ReloadFault config h e := by
  rw [← stage_error_iff]
  rcases hs : c.stage config h with ⟨_ | next, host⟩
  · rw [reload_error hs]
    constructor <;> intro hr <;> cases hr <;> rfl
  · rw [reload_ok hs]
    constructor <;> intro hr <;> cases hr

theorem reload_cases (config : Option Record) (c : Context) (h : Host) :
    (∃ e host, c.reload config h = (.error e, c, host)) ∨
    ∃ next host, c.Renewed config h next ∧
      c.reload config h = (.ok (), { c with
        phase := if config.isSome then .initialized else .loaded,
        generation := some next }, host) := by
  rcases stage_cases config c h with ⟨e, host, hs, -⟩ | ⟨next, host, hs, hn⟩
  · exact .inl ⟨e, host, reload_error hs⟩
  · exact .inr ⟨next, _, hn, reload_ok hs⟩

/-- Contexts that differ in phase and generation come out of a reload that works as one. -/
theorem reload_alike (config : Option Record) (c : Context) (h : Host) (phase : Phase)
    (generation : Option Generation) :
    (reload config { c with phase, generation } h).1 = (c.reload config h).1 ∧
    ((c.reload config h).1 = .ok () →
      (reload config { c with phase, generation } h).2.1 = (c.reload config h).2.1) := by
  have ha := stage_alike config c h phase generation
  rcases hs : c.stage config h with ⟨_ | next, host⟩
  · rw [reload_error hs, reload_error (ha.trans hs)]
    exact ⟨rfl, fun hr => by cases hr⟩
  · rw [reload_ok hs, reload_ok (ha.trans hs)]
    exact ⟨rfl, fun _ => rfl⟩

/-- A reload fails exactly when one of its steps does, and then changes nothing of the context. One
that works puts a generation of the script as it is now in place, and neither its outcome nor what
it puts in place depends on the generation and the phase that were there before. -/
theorem reload_atomic (c : Context) (config : Option Record) (h : Host) :
    (∀ e, (c.reload config h).1 = .error e ↔ c.ReloadFault config h e) ∧
    (∀ e, (c.reload config h).1 = .error e → (c.reload config h).2.1 = c) ∧
    ((c.reload config h).1 = .ok () → ∃ next, c.Renewed config h next ∧
      (c.reload config h).2.1 = { c with
        phase := if config.isSome then .initialized else .loaded, generation := some next }) ∧
    ∀ phase generation,
      (reload config { c with phase, generation } h).1 = (c.reload config h).1 ∧
      ((c.reload config h).1 = .ok () →
        (reload config { c with phase, generation } h).2.1 = (c.reload config h).2.1) := by
  refine ⟨fun e => reload_error_iff, ?_, ?_, reload_alike config c h⟩
  · intro e hr
    rcases reload_cases config c h with ⟨e', host, hc⟩ | ⟨next, host, hn, hc⟩
    · rw [hc]
    · rw [hc] at hr
      cases hr
  · intro hr
    rcases reload_cases config c h with ⟨e', host, hc⟩ | ⟨next, host, hn, hc⟩
    · rw [hc] at hr
      cases hr
    · rw [hc]
      exact ⟨next, hn, rfl⟩

/-- A script of three functions that yield nothing. -/
def smallScript : String :=
  "\x7b\"entries\":[[\"fetchData\",[\"x\"]],[\"serializeKey\",[\"x\"]]," ++
    "[\"serializeValue\",[\"x\"]]]\x7d"

def smallProgram : Program :=
  ⟨.null, Script.EntryPoint.required.map fun name => ⟨name, .item, .function⟩⟩

def smallModule : Module :=
  ⟨Script.EntryPoint.required.map fun name => (name, .function false .item), .null⟩

def smallHost : Host := .ofFiles ⟨[(["s"], .file (Utf8.encode smallScript))], []⟩

/-- A context that was closed, for the script of the host. -/
def closedContext : Context := ⟨"a", .javascript, ⟨true, [.name "s"]⟩, .default, .closed, none⟩

theorem readScript_small : closedContext.readScript smallHost = .ok smallScript := by
  have hr : smallHost.files.readText closedContext.scriptPath = .ok smallScript :=
    FileTree.readText_top (by decide) (by decide) (by decide) (by decide)
  rw [readScript, hr]
  rfl

set_option maxRecDepth 20000 in
theorem read_small : Program.read? smallScript = some smallProgram := by
  cbv

/-- A generation for the script of the host before it is loaded. -/
def freshGeneration : Generation :=
  ⟨⟨⟨"a", .default, true, ⟨⟨true, []⟩⟩, [], none⟩, none, false⟩, []⟩

theorem createGeneration_small : closedContext.createGeneration smallHost =
    (.ok freshGeneration, smallHost.engineStarted "a") := by
  cbv

theorem stage_small : ∃ next host, closedContext.stage none smallHost = (.ok next, host) := by
  have hm : ∀ capabilities host, (Module.load smallProgram).run ⟨capabilities, host, .undefined⟩ =
      (.ok smallModule, ⟨capabilities, host, .null⟩) := fun _ _ => rfl
  have hn : smallModule.entryPoints = Script.EntryPoint.required := by decide
  have hc : ∀ engine : Script.Engine, engine.module = some smallModule →
      Generation.Complete ⟨engine, engine.entryPoints⟩ := by
    intro engine he name hr
    rw [Generation.defines, Script.Engine.entryPoints, he]
    rw [← hn] at hr
    exact List.contains_iff_mem.mpr hr
  have hp : ∃ next host, freshGeneration.prepare smallScript closedContext.scriptPath.lastName none
      (smallHost.engineStarted "a") = (.ok (), next, host) := by
    rw [Generation.prepare, freshGeneration, Generation.load, Script.Engine.load, read_small]
    dsimp only
    rw [if_neg Bool.false_ne_true, Script.Engine.runWith, hm]
    dsimp only
    rw [Generation.find_required_eq_none.mpr (hc _ rfl)]
    exact ⟨_, _, rfl⟩
  obtain ⟨next, host, hp⟩ := hp
  exact ⟨next, host, stage_prepared readScript_small createGeneration_small hp⟩

/-- A closed context comes back with a script that is complete. -/
theorem reload_atomic_closed :
    (closedContext.reload none smallHost).1 = .ok () ∧
    ∃ next, closedContext.Renewed none smallHost next ∧
      (closedContext.reload none smallHost).2.1 =
        { closedContext with phase := .loaded, generation := some next } := by
  obtain ⟨next, host, hs⟩ := stage_small
  have hok : (closedContext.reload none smallHost).1 = .ok () := by rw [reload_ok hs]
  exact ⟨hok, (reload_atomic closedContext none smallHost).2.2.1 hok⟩

end Context

namespace Plugin

/-- The configuration with which a reload starts the script again. -/
def reloadConfig (p : Plugin) : Option Record := if p.isInitialized then p.lastConfig else none

/-- A plugin keeps all it has through a reload that fails, and all but its context otherwise. -/
theorem reload_cases (p : Plugin) (h : Host) :
    (∃ e host, p.reload h = (.error e, p, host)) ∨
    ∃ next host, p.context.Renewed p.reloadConfig h next ∧
      p.reload h = (.ok (), { p with context := { p.context with
        phase := if p.reloadConfig.isSome then .initialized else .loaded,
        generation := some next } }, host) := by
  rw [reload, inContext, ← reloadConfig]
  rcases Context.reload_cases p.reloadConfig p.context h with ⟨e, host, hc⟩ | ⟨next, host, hn, hc⟩
  · rw [hc]
    exact .inl ⟨e, host, rfl⟩
  · rw [hc]
    exact .inr ⟨next, host, hn, rfl⟩

end Plugin

end TrieFeed
