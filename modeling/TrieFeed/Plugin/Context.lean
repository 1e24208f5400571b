import TrieFeed.Script.Engine
import TrieFeed.Text.Quoted
/-!
# Execution contexts

A context runs the script of one provider in one generation of its engine at a time. A reload
prepares the next generation beside the live one and puts it in place only when all of it has
worked.
-/
namespace TrieFeed

open Script (Engine)

/-- Where a context is in its life. -/
inductive Phase where
  | unloaded
  | loaded
  | initialized
  | reloading
  | failed
  | closed
deriving DecidableEq, Inhabited

def Phase.name : Phase → String
  | unloaded => "unloaded"
  | loaded => "loaded"
  | initialized => "initialized"
  | reloading => "reloading"
  | failed => "failed"
  | closed => "closed"

/-- An engine with the entry points that its script had when it was loaded. -/
structure Generation where
  engine : Engine
  entryPoints : List String
deriving Inhabited

namespace Generation

/-- Work on a generation and the host. -/
abbrev Step (α : Type) := Generation → Host → Except PluginError α × Generation × Host

def provider (g : Generation) : String := g.engine.provider

def defines (g : Generation) (entryPoint : String) : Bool := g.entryPoints.contains entryPoint

/-- Starts an engine with capabilities in a directory. That the system has a thread for the engine,
and lets it bear the provider's name, is taken for granted. -/
def create (provider : String) (language : Language) (directory : Path) (sandbox : Sandbox)
    (h : Host) : Except PluginError Generation × Host :=
  match (Capabilities.create provider directory sandbox true h.files).bind
      (Engine.create language) with
  | .ok engine => (.ok ⟨engine, []⟩, h.engineStarted provider)
  | .error e => (.error e, h)

/-- Ends the engine, and its pools with it. -/
def stop (g : Generation) (h : Host) : Host := h.engineEnded g.provider

def load (source fileName : String) : Step Unit := fun g h =>
  match g.engine.load source fileName h with
  | (.ok (), engine, h) => (.ok (), ⟨engine, engine.entryPoints⟩, h)
  | (.error e, engine, h) => (.error e, { g with engine }, h)

def call (entryPoint : String) (args : List Value) : Step Value := fun g h =>
  match g.engine.call entryPoint args h with
  | (result, engine, h) => (result, { g with engine }, h)

/-- Hands the script its configuration, if it wants one. -/
def start (config : Record) : Step Unit := fun g h =>
  if g.defines Script.EntryPoint.start then
    match g.call Script.EntryPoint.start [.map config] h with
    | (result, g, h) => (result.map fun _ => (), g, h)
  else (.ok (), g, h)

/-- Loads a script that has to be complete, and starts it when there is a configuration. -/
def prepare (source fileName : String) (config : Option Record) : Step Unit := fun g h =>
  match g.load source fileName h with
  | (.error e, g, h) => (.error e, g, h)
  | (.ok (), g, h) =>
    match Script.EntryPoint.required.find? fun name => !g.defines name, config with
    | some name, _ => (.error (.entryPointMissing g.provider name), g, h)
    | none, some config => g.start config h
    | none, none => (.ok (), g, h)

end Generation

/-- The environment of one provider's script. -/
structure Context where
  provider : String
  language : Language
  scriptPath : Path
  sandbox : Sandbox
  phase : Phase
  generation : Option Generation
deriving Inhabited

namespace Context

/-- Work on a context and the host. -/
abbrev Step (α : Type) := Context → Host → Except PluginError α × Context × Host

def createGeneration (c : Context) (h : Host) : Except PluginError Generation × Host :=
  Generation.create c.provider c.language c.scriptPath.parent c.sandbox h

/-- A context whose script has not been read yet. -/
def create (provider : String) (language : Language) (scriptPath : Path) (sandbox : Sandbox)
    (h : Host) : Except PluginError Context × Host :=
  let c : Context := ⟨provider, language, scriptPath, sandbox, .unloaded, none⟩
  match c.createGeneration h with
  | (.ok g, h) => (.ok { c with generation := some g }, h)
  | (.error e, h) => (.error e, h)

def entryPoints (c : Context) : List String := (c.generation.map (·.entryPoints)).getD []

def defines (c : Context) (entryPoint : String) : Bool := c.entryPoints.contains entryPoint

def readScript (c : Context) (h : Host) : Except PluginError String :=
  (h.files.readText c.scriptPath).mapError fun fault =>
    .scriptLoad c.provider s!"cannot read {c.scriptPath.text}: {fault.message}"

/-- Loads the script into the live generation. -/
def load : Step Unit := fun c h =>
  match c.readScript h, c.generation with
  | .error e, _ => (.error e, { c with phase := .failed }, h)
  | .ok _, none => (.error (.contextClosed c.provider), { c with phase := .failed }, h)
  | .ok source, some g =>
    match g.load source c.scriptPath.lastName h with
    | (.ok (), g, h) => (.ok (), { c with phase := .loaded, generation := some g }, h)
    | (.error e, g, h) => (.error e, { c with phase := .failed, generation := some g }, h)

/-- Calls an entry point of the live generation. -/
def call (entryPoint : String) (args : List Value) : Step Value := fun c h =>
  match c.generation with
  | none => (.error (.contextClosed c.provider), c, h)
  | some g =>
    if g.defines entryPoint then
      match g.call entryPoint args h with
      | (result, g, h) => (result, { c with generation := some g }, h)
    else (.error (.entryPointMissing c.provider entryPoint), c, h)

/-- Hands the script its configuration, if it wants one. -/
def start (config : Record) : Step Unit := fun c h =>
  match c.generation with
  | none => (.ok (), { c with phase := .initialized }, h)
  | some g =>
    match g.start config h with
    | (.ok (), g, h) => (.ok (), { c with phase := .initialized, generation := some g }, h)
    | (.error e, g, h) => (.error e, { c with phase := .failed, generation := some g }, h)

/-- Prepares the next generation from the script as it is now; one that fails is stopped. -/
def stage (config : Option Record) (c : Context) (h : Host) :
    Except PluginError Generation × Host :=
  match c.readScript h with
  | .error e => (.error e, h)
  | .ok source =>
    match c.createGeneration h with
    | (.error e, h) => (.error e, h)
    | (.ok g, h) =>
      match g.prepare source c.scriptPath.lastName config h with
      | (.ok (), g, h) => (.ok g, h)
      | (.error e, g, h) => (.error e, g.stop h)

/-- The phase after a reload, which starts the script only when there is a configuration. -/
def reloadedPhase (config : Option Record) : Phase :=
  if config.isSome then .initialized else .loaded

/-- Puts the next generation in place of the live one, which is stopped. -/
def reload (config : Option Record) : Step Unit := fun c h =>
  let marked := { c with phase := .reloading }
  match marked.stage config h with
  | (.error e, h) => (.error e, { marked with phase := c.phase }, h)
  | (.ok next, h) =>
    (.ok (), { marked with generation := some next, phase := reloadedPhase config },
      c.generation.elim h fun g => g.stop h)

/-- Lets the script finish and ends it; how that goes does not matter. -/
def close (c : Context) (h : Host) : Context × Host :=
  let closed := { c with phase := .closed, generation := none }
  match c.generation with
  | none => (closed, h)
  | some g =>
    if g.defines Script.EntryPoint.close then
      match g.call Script.EntryPoint.close [] h with
      | (_, g, h) => (closed, g.stop h)
    else (closed, g.stop h)

/-- A context whose script has been loaded; one that does not load is closed again. -/
def createLoaded (provider : String) (language : Language) (scriptPath : Path)
    (sandbox : Sandbox) (h : Host) : Except PluginError Context × Host :=
  match create provider language scriptPath sandbox h with
  | (.error e, h) => (.error e, h)
  | (.ok c, h) =>
    match c.load h with
    | (.ok (), c, h) => (.ok c, h)
    | (.error e, c, h) => (.error e, (c.close h).2)

/-- The text that stands for a context in diagnostics. -/
def summary (c : Context) : String :=
  "ExecutionContext \x7b provider: " ++ Text.quoted c.provider ++ ", language: " ++
    c.language.properName ++ ", script_path: " ++ Text.quoted c.scriptPath.text ++ ", state: " ++
    c.phase.name.capitalize ++ ", .. \x7d"

end Context

end TrieFeed
