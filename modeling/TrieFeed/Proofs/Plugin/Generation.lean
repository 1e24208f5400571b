import TrieFeed.Plugin.Context
/-!
# Generations

What loading and starting a script make of an engine. Loading evaluates the script by itself in a
state of its own; calls change the state of the script and never what it exports.
-/
namespace TrieFeed

namespace Script.Engine

variable {e e' : Engine} {h h' : Host}

theorem runWith_eq {α : Type} {state state' : Datum} {run : Run α} {result : Except Stop α}
    (hr : e.runWith h state run = (result, e', h', state')) :
    ∃ capabilities, run.run ⟨e.capabilities, h, state⟩ = (result, ⟨capabilities, h', state'⟩) ∧
      e' = { e with capabilities } := by
  generalize hm : run.run ⟨e.capabilities, h, state⟩ = outcome
  obtain ⟨result', capabilities, host, last⟩ := outcome
  rw [runWith, hm] at hr
  cases hr
  exact ⟨capabilities, rfl, rfl⟩

/-- A script was loaded when evaluating it yields a module, which replaces the one before. -/
theorem load_eq_ok {source fileName : String} (hl : e.load source fileName h = (.ok (), e', h')) :
    ∃ script m capabilities state, Program.read? source = some script ∧
      (Module.load script).run ⟨e.capabilities, h, .undefined⟩ =
        (.ok m, ⟨capabilities, h', state⟩) ∧
      e' = ⟨capabilities, some m, e.closed⟩ := by
  rw [load] at hl
  by_cases hc : e.closed
  · rw [if_pos hc] at hl
    cases hl
  · rw [if_neg hc] at hl
    cases hs : Program.read? source with
    | none => rw [hs] at hl; cases hl
    | some script =>
      rw [hs] at hl
      dsimp only at hl
      generalize hr : e.runWith h .undefined (Module.load script) = outcome at hl
      obtain ⟨result, after, host, state⟩ := outcome
      obtain ⟨capabilities, hm, rfl⟩ := runWith_eq hr
      cases result with
      | error stop => cases hl
      | ok m =>
        cases hl
        exact ⟨script, m, capabilities, state, rfl, hm, rfl⟩

theorem failureOf_module (name : String) (stop : Stop) (e : Engine) :
    (failureOf name stop e).2.module = e.module := by
  rw [failureOf]
  split <;> rfl

/-- What a script exports stays through a call. -/
theorem call_exports (name : String) (args : List Value) (e : Engine) (h : Host) :
    (e.call name args h).2.1.module.map (·.exports) = e.module.map (·.exports) := by
  rw [call]
  cases hm : e.module with
  | none => rw [hm]
  | some m =>
    dsimp only
    cases (Fields.get? name m.exports).filter Export.isFunction with
    | none => rfl
    | some function =>
      dsimp only
      generalize Engine.runWith _ h m.state _ = outcome
      obtain ⟨result, after, host, state⟩ := outcome
      cases result with
      | ok d => rfl
      | error stop => simp only [failureOf_module, Option.map_some]

end Script.Engine

namespace Generation

variable {g g' : Generation} {h h' : Host}

/-- All entry points that a provider cannot do without are there. -/
def Complete (g : Generation) : Prop := ∀ name ∈ Script.EntryPoint.required, g.defines name

/-- The generation after its script has been handed its configuration, if there is one. -/
def StartsWith (config : Option Record) (g : Generation) (h : Host) (g' : Generation)
    (h' : Host) : Prop :=
  match config with
  | none => g' = g ∧ h' = h
  | some record => g.start record h = (.ok (), g', h')

theorem load_eq_ok {source fileName : String} (hl : g.load source fileName h = (.ok (), g', h')) :
    g.engine.load source fileName h = (.ok (), g'.engine, h') ∧
      g'.entryPoints = g'.engine.entryPoints := by
  rw [load] at hl
  generalize hr : g.engine.load source fileName h = outcome at hl
  obtain ⟨result, engine, host⟩ := outcome
  cases result with
  | ok => cases hl; exact ⟨rfl, rfl⟩
  | error e => cases hl

/-- Starting a script leaves its exports and the names of its entry points. -/
theorem start_keeps (record : Record) (g : Generation) (h : Host) :
    (g.start record h).2.1.entryPoints = g.entryPoints ∧
      (g.start record h).2.1.engine.module.map (·.exports) =
        g.engine.module.map (·.exports) := by
  rw [start]
  split
  · exact ⟨rfl, Script.Engine.call_exports _ _ _ _⟩
  · exact ⟨rfl, rfl⟩

theorem StartsWith.keeps {config : Option Record} (hs : StartsWith config g h g' h') :
    g'.entryPoints = g.entryPoints ∧
      g'.engine.module.map (·.exports) = g.engine.module.map (·.exports) := by
  cases config with
  | none => obtain ⟨rfl, rfl⟩ := hs; exact ⟨rfl, rfl⟩
  | some record =>
    have hk := start_keeps record g h
    rw [hs] at hk
    exact hk

theorem find_required_eq_none :
    Script.EntryPoint.required.find? (fun name => !g.defines name) = none ↔ g.Complete := by
  rw [List.find?_eq_none]
  simp only [Bool.not_eq_true', Bool.not_eq_false, Complete]

/-- Where the preparation of a script can fail, with the error of that step. -/
inductive PreparationFault (g : Generation) (source fileName : String) (config : Option Record)
    (h : Host) : PluginError → Prop where
  | notLoaded {e after host} (hl : g.load source fileName h = (.error e, after, host)) :
      PreparationFault g source fileName config h e
  | incomplete {loaded host name} (hl : g.load source fileName h = (.ok (), loaded, host))
      (hn : Script.EntryPoint.required.find? (fun name => !loaded.defines name) = some name) :
      PreparationFault g source fileName config h (.entryPointMissing loaded.provider name)
  | notStarted {e loaded after host host' record}
      (hl : g.load source fileName h = (.ok (), loaded, host)) (hc : loaded.Complete)
      (hr : config = some record) (hs : loaded.start record host = (.error e, after, host')) :
      PreparationFault g source fileName config h e

/-- A preparation either fails at one of its steps or ends with a complete script that has been
started if there is a configuration. -/
theorem prepare_cases (source fileName : String) (config : Option Record) (g : Generation)
    (h : Host) :
    (∃ e after host, g.prepare source fileName config h = (.error e, after, host) ∧
      g.PreparationFault source fileName config h e) ∨
    ∃ loaded next host host', g.prepare source fileName config h = (.ok (), next, host') ∧
      g.load source fileName h = (.ok (), loaded, host) ∧ loaded.Complete ∧
      loaded.StartsWith config host next host' := by
  rw [prepare]
  rcases hl : g.load source fileName h with ⟨_ | _, loaded, host⟩
  · exact .inl ⟨_, _, _, rfl, .notLoaded hl⟩
  · dsimp only
    cases hn : Script.EntryPoint.required.find? fun name => !loaded.defines name with
    | some name => exact .inl ⟨_, _, _, rfl, .incomplete hl hn⟩
    | none =>
      have hc : loaded.Complete := find_required_eq_none.mp hn
      cases config with
      | none => exact .inr ⟨loaded, loaded, host, host, rfl, rfl, hc, rfl, rfl⟩
      | some record =>
        rcases hs : loaded.start record host with ⟨_ | _, next, host'⟩
        · exact .inl ⟨_, _, _, hs, .notStarted hl hc rfl hs⟩
        · exact .inr ⟨loaded, next, host, host', hs, rfl, hc, hs⟩

/-- A step that fails makes the preparation fail with its error. -/
theorem PreparationFault.error {source fileName : String} {config : Option Record}
    {e : PluginError} (hf : g.PreparationFault source fileName config h e) :
    (g.prepare source fileName config h).1 = .error e := by
  cases hf with
  | notLoaded hl => rw [prepare, hl]
  | incomplete hl hn => rw [prepare, hl]; dsimp only; rw [hn]
  | notStarted hl hc hr hs =>
    rw [prepare, hl]
    dsimp only
    rw [find_required_eq_none.mpr hc, hr]
    dsimp only
    rw [hs]

end Generation

end TrieFeed
