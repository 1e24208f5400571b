import TrieFeed.Plugin.Context
import TrieFeed.Proofs.Plugin.Reload
import TrieFeed.Proofs.Script.Dialogue
/-!
# Engines that run

A context has one engine of its own running, or none. Scripts have no say in that: only creating and
staging a generation start an engine, and only ending one stops it.
-/
namespace TrieFeed

open Script (Engine Run Spoken Stop Datum)

namespace Script.Engine

variable {α : Type}

theorem runWith_engines {run : Run α} (hr : Spoken run) (e : Engine) (h : Host) (state : Datum) :
    (e.runWith h state run).2.1.provider = e.provider ∧
      (e.runWith h state run).2.2.1.engines = h.engines := by
  obtain ⟨d, hd⟩ := hr state
  have hk := d.answered_keeps e.capabilities h
  rw [runWith, hd e.capabilities h]
  rcases ha : d.answered e.capabilities h with ⟨⟨result, after⟩, c, host⟩
  rw [ha] at hk
  exact hk

theorem load_engines (source fileName : String) (e : Engine) (h : Host) :
    (e.load source fileName h).2.1.provider = e.provider ∧
      (e.load source fileName h).2.2.engines = h.engines := by
  rw [load]
  split
  · exact ⟨rfl, rfl⟩
  · split
    · exact ⟨rfl, rfl⟩
    · rename_i script _
      have hk := runWith_engines (load_spoken script) e h .undefined
      rcases hr : e.runWith h .undefined (Module.load script) with ⟨_ | _, after, host, state⟩ <;>
        · rw [hr] at hk
          exact hk

theorem failureOf_provider (name : String) (stop : Stop) (e : Engine) :
    (failureOf name stop e).2.provider = e.provider := by
  rw [failureOf, Capabilities.takeFailure]
  cases e.capabilities.lastFailure.filter fun failure =>
    Text.contains stop.message failure.message <;> rfl

theorem call_engines (name : String) (args : List Value) (e : Engine) (h : Host) :
    (e.call name args h).2.1.provider = e.provider ∧
      (e.call name args h).2.2.engines = h.engines := by
  rw [call]
  split
  · exact ⟨rfl, rfl⟩
  · dsimp only
    split
    · exact ⟨rfl, rfl⟩
    · rename_i m _ _ function _
      have hk := runWith_engines (callExport_spoken m function (args.map datumOf))
        { e with capabilities := e.capabilities.clearFailure } h m.state
      rcases hr : Engine.runWith _ h m.state _ with ⟨stop | _, after, host, state⟩
      · rw [hr] at hk
        exact ⟨(failureOf_provider ..).trans hk.1, hk.2⟩
      · rw [hr] at hk
        exact hk

end Script.Engine

namespace Generation

variable {g : Generation} {h : Host}

theorem load_engines (source fileName : String) (g : Generation) (h : Host) :
    (g.load source fileName h).2.1.provider = g.provider ∧
      (g.load source fileName h).2.2.engines = h.engines := by
  have hk := g.engine.load_engines source fileName h
  rw [load]
  rcases hl : g.engine.load source fileName h with ⟨_ | _, engine, host⟩ <;>
    · rw [hl] at hk
      exact hk

theorem call_engines (entryPoint : String) (args : List Value) (g : Generation) (h : Host) :
    (g.call entryPoint args h).2.1.provider = g.provider ∧
      (g.call entryPoint args h).2.2.engines = h.engines := g.engine.call_engines entryPoint args h

theorem start_engines (config : Record) (g : Generation) (h : Host) :
    (g.start config h).2.1.provider = g.provider ∧
      (g.start config h).2.2.engines = h.engines := by
  rw [start]
  split
  · exact g.call_engines _ _ h
  · exact ⟨rfl, rfl⟩

theorem prepare_engines (source fileName : String) (config : Option Record) (g : Generation)
    (h : Host) :
    (g.prepare source fileName config h).2.1.provider = g.provider ∧
      (g.prepare source fileName config h).2.2.engines = h.engines := by
  have hk := g.load_engines source fileName h
  rw [prepare]
  rcases hl : g.load source fileName h with ⟨_ | _, loaded, host⟩
  · rw [hl] at hk
    exact hk
  · rw [hl] at hk
    dsimp only
    cases Script.EntryPoint.required.find? fun name => !loaded.defines name with
    | some name => exact hk
    | none =>
      cases config with
      | none => exact hk
      | some record =>
        have hs := loaded.start_engines record host
        exact ⟨hs.1.trans hk.1, hs.2.trans hk.2⟩

/-- A new generation has an engine of its provider running; one that is not made has none. -/
theorem create_engines (provider : String) (language : Language) (directory : Path)
    (sandbox : Sandbox) (h : Host) :
    (∃ e, create provider language directory sandbox h = (.error e, h)) ∨
    ∃ g, create provider language directory sandbox h = (.ok g, h.engineStarted provider) ∧
      g.provider = provider := by
  rw [create, Capabilities.create]
  cases SandboxedFile.ofDirectory h.files directory with
  | error e => exact .inl ⟨e, rfl⟩
  | ok file =>
    cases language with
    | javascript => exact .inr ⟨_, rfl, rfl⟩
    | python => exact .inl ⟨_, rfl⟩

end Generation

namespace Context

variable {c : Context} {config : Option Record} {h : Host}

/-- What is staged runs in one engine more, and a failure leaves none behind. -/
theorem stage_engines (config : Option Record) (c : Context) (h : Host) :
    (∃ e host, c.stage config h = (.error e, host) ∧ host.engines = h.engines) ∨
    ∃ next host, c.stage config h = (.ok next, host) ∧
      host.engines = c.provider :: h.engines := by
  cases hs : c.readScript h with
  | error e => exact .inl ⟨e, h, stage_unread hs, rfl⟩
  | ok source =>
    rcases Generation.create_engines c.provider c.language c.scriptPath.parent c.sandbox h with
      ⟨e, hg⟩ | ⟨g, hg, hp⟩
    · exact .inl ⟨e, h, stage_uncreated hs hg, rfl⟩
    · have hk := g.prepare_engines source c.scriptPath.lastName config (h.engineStarted c.provider)
      rcases hr : g.prepare source c.scriptPath.lastName config (h.engineStarted c.provider) with
        ⟨e | _, next, host⟩
      · rw [hr] at hk
        refine .inl ⟨e, _, stage_unprepared hs hg hr, ?_⟩
        change host.engines.erase next.provider = h.engines
        rw [hk.1, hp, hk.2]
        exact List.erase_cons_head ..
      · rw [hr] at hk
        exact .inr ⟨next, host, stage_prepared hs hg hr, hk.2⟩

theorem close_generation (c : Context) (h : Host) :
    (c.close h).1 = { c with phase := .closed, generation := none } := by
  rw [close]
  split
  · rfl
  · split <;> rfl

/-- Closing stops the engine of the live generation, if there is one. -/
theorem close_engines (c : Context) (h : Host) : (c.close h).2.engines =
    c.generation.elim h.engines fun g => h.engines.erase g.provider := by
  rw [close]
  cases hg : c.generation with
  | none => rfl
  | some g =>
    dsimp only
    split
    · obtain ⟨hp, he⟩ := g.call_engines Script.EntryPoint.close [] h
      change (g.call _ _ h).2.2.engines.erase (g.call _ _ h).2.1.provider =
        h.engines.erase g.provider
      rw [hp, he]
    · rfl

end Context

end TrieFeed
