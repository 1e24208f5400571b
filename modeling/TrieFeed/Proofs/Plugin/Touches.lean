import TrieFeed.Proofs.Capability.Stepwise
import TrieFeed.Proofs.Plugin.Footprint
import TrieFeed.Proofs.Script.Dialogue
/-!
# What turns come upon

Scripts have no way to the host but the capabilities, so that a turn is made of single steps,
whatever the scripts do that it runs. So every turn comes upon finitely many entries and databases.
-/
namespace TrieFeed

open Script (Dialogue Engine Run Spoken Stop Datum Module Program)

variable {α β : Type}

/-! ## Scripts -/

namespace Script

theorem Dialogue.stepwise_answered (d : Dialogue α) (c : Capabilities) :
    Stepwise (paired (d.answered c)) := by
  induction d generalizing c with
  | ended a => exact .done (a, c)
  | asked object method values next ih =>
    exact @Confined.bind _ _ _ _ _ (fun (told : Except String Value × Capabilities) h =>
      paired ((next told.1).answered told.2) h) (c.stepwise_invokeFromScript method object values)
        fun h _ => ih _ _

namespace Engine

theorem stepwise_runWith {run : Run α} (hr : Spoken run) (e : Engine) (state : Datum) :
    Stepwise fun h => (((e.runWith h state run).1, (e.runWith h state run).2.1,
      (e.runWith h state run).2.2.2), (e.runWith h state run).2.2.1) := by
  obtain ⟨d, hd⟩ := hr state
  refine ((d.stepwise_answered e.capabilities).map fun answered =>
    (answered.1.1, { e with capabilities := answered.2 }, answered.1.2)).of_eq fun h => ?_
  rw [runWith, hd e.capabilities h]
  rfl

theorem stepwise_load (source fileName : String) (e : Engine) :
    Stepwise (paired (e.load source fileName)) := by
  unfold load
  dsimp only
  split
  · exact .done (Except.error _, e)
  · cases Program.read? source with
    | none => exact .done (Except.error _, e)
    | some script =>
      refine ((stepwise_runWith (load_spoken script) e .undefined).map fun
        | (.ok m, e, _) => (.ok (), { e with module := some m })
        | (.error stop, after, _) =>
          (.error (.scriptLoad e.provider s!"{fileName}: {stop.message}"), after)).of_eq fun h => ?_
      unfold paired
      dsimp only
      rcases e.runWith h .undefined (Module.load script) with ⟨_ | _, _, _, _⟩ <;> rfl

/-- What a call is answered with once its function has run. -/
def answered (name : String) (m : Module) :
    Except Stop Datum × Engine × Datum → Except PluginError Value × Engine
  | (.ok d, e, state) =>
    ((valueOf d).mapError fun fault => .unsupportedValue fault.message,
      { e with module := some { m with state } })
  | (.error stop, e, state) =>
    let failed := failureOf name stop { e with module := some { m with state } }
    (.error failed.1, failed.2)

theorem stepwise_call (name : String) (args : List Value) (e : Engine) :
    Stepwise (paired (e.call name args)) := by
  obtain ⟨capabilities, loaded, closed⟩ := e
  unfold call
  cases loaded with
  | none => exact .done (Except.error _, (⟨capabilities, none, closed⟩ : Engine))
  | some m =>
    dsimp only
    cases (Fields.get? name m.exports).filter Export.isFunction with
    | none => exact .done (Except.error _, (⟨capabilities.clearFailure, some m, closed⟩ : Engine))
    | some function =>
      refine ((stepwise_runWith (callExport_spoken m function (args.map datumOf))
        ⟨capabilities.clearFailure, some m, closed⟩ m.state).map (answered name m)).of_eq
          fun h => ?_
      unfold paired answered
      dsimp only
      rcases Engine.runWith _ h m.state _ with ⟨_ | _, _, _, _⟩ <;> rfl

end Engine

end Script

/-! ## Plugins -/

theorem Generation.stepwise_call (entryPoint : String) (args : List Value) (g : Generation) :
    Stepwise (paired (g.call entryPoint args)) :=
  (g.engine.stepwise_call entryPoint args).map fun called => (called.1, { g with engine := called.2 })

theorem Generation.stepwise_start (config : Record) (g : Generation) :
    Stepwise (paired (g.start config)) := by
  unfold start
  split
  · exact (g.stepwise_call Script.EntryPoint.start [.map config]).map fun called =>
      (called.1.map fun _ => (), called.2)
  · exact .done (Except.ok (), g)

namespace Context

variable (c : Context)

theorem stepwise_close : Stepwise c.close :=
  confined_close sighted_all fun g _ _ => g.stepwise_call Script.EntryPoint.close []

theorem stepwise_call (entryPoint : String) (args : List Value) :
    Stepwise (paired (c.call entryPoint args)) := by
  unfold call
  cases c.generation with
  | none => exact .done (Except.error _, c)
  | some g =>
    dsimp only
    split
    · exact (g.stepwise_call entryPoint args).map fun called =>
        (called.1, { c with generation := some called.2 })
    · exact .done (Except.error _, c)

theorem stepwise_start (config : Record) : Stepwise (paired (c.start config)) := by
  unfold start
  cases c.generation with
  | none => exact .done (Except.ok (), _)
  | some g =>
    refine ((g.stepwise_start config).map (c.leading .initialized)).of_eq fun h => ?_
    unfold paired leading
    dsimp only
    rcases g.start config h with ⟨_ | _, _, _⟩ <;> rfl

theorem stepwise_createLoaded (provider : String) (language : Language) (path : Path)
    (sandbox : Sandbox) : Stepwise (createLoaded provider language path sandbox) :=
  confined_createLoaded sighted_all (FileTree.seen_canonical _) (FileTree.seen_readText _)
    (fun _ source _ _ _ => Engine.stepwise_load source _ _) provider language sandbox

theorem stepwise_answering (entryPoint : String) (args : List Value) :
    Stepwise (c.answering entryPoint args) := by
  unfold answering
  split
  · exact @Confined.bind _ _ _ _ _ (fun (called : Except PluginError Value × Context) h =>
      (called.1.map some, (called.2.close h).2)) (c.stepwise_call entryPoint args) fun h _ =>
        (stepwise_close _).map fun _ => _
  · exact (c.stepwise_close).map fun _ => Except.ok none

end Context

namespace Plugin

theorem stepwise_askAside (entryPoint : String) (args : List Value) (p : Plugin) :
    Stepwise (askAside entryPoint args p) :=
  confined_askAside (Context.stepwise_createLoaded _ _ _ _) fun _ c _ _ =>
    c.stepwise_answering entryPoint args

theorem stepwise_start (config : Record) (p : Plugin) : Stepwise (paired (start config p)) := by
  refine ((p.context.stepwise_start config).map fun
    | (.ok (), context) => (.ok (), { p with context, lastConfig := some config })
    | (.error e, context) => (.error e, { p with context })).of_eq fun h => ?_
  unfold paired start keeping inContext
  dsimp only
  rcases p.context.start config h with ⟨_ | _, _, _⟩ <;> rfl

end Plugin

namespace Loader

theorem stepwise_turn (directory : Path) (l : Loader) : Stepwise (paired (turn directory l)) := by
  refine confined_turn ?_ (fun h manifest _ _ => ?_) (fun h manifest _ _ => ?_)
    fun h k manifest p _ _ _ _ => ?_
  · exact (FileTree.seen_readText (manifestPath directory)).map fun text =>
      ((text.mapError (Manifest.Fault.unreadable ·.message) |>.bind
        Manifest.read).mapError (·.toError (manifestPath directory).text))
  · exact FileTree.looks_isFile (FileTree.seen_entryAt _)
  · exact Plugin.confined_ofManifest (Context.stepwise_createLoaded _ _ _ _)
  · exact confined_install (confined_registerNext fun q _ => q.context.stepwise_close)
      (confined_configure (p.stepwise_askAside _ _) fun settings => p.stepwise_start settings)

theorem turn_touches (directory : Path) (l : Loader) (h : Host) :
    ∃ touches : List Touch, Within (· ∈ touches) h (paired (turn directory l)) := by
  obtain ⟨touches, -, hw⟩ := (stepwise_turn directory l h trivial).1.finite
  exact ⟨touches, hw⟩

end Loader

end TrieFeed
