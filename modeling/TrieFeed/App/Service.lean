import TrieFeed.App.Help
import TrieFeed.Plugin.Watch
/-!
# The service

The service keeps plugins loaded, reloads those whose scripts change, and runs their schedules. Each
of its steps is given the instant and the files as they are then.
-/
namespace TrieFeed.App

structure Service where
  runtime : Runtime
  watch : Watch
  scheduler : Schedule.Scheduler
  store : TrieStore

namespace Service

/-- A watch over all plugins, or over none where scripts are not to be reloaded. -/
def watchFor (settings : Settings) (r : Runtime) : Except Causes Watch :=
  if settings.hotReload then
    match Watch.start r.loader.plugins r.host.files with
    | .ok w => .ok w
    | .error e => .error ("failed to start hot reload" :: causesOf e)
  else .ok ⟨[]⟩

def start (settings : Settings) (now : Int) (r : Runtime) : Except Causes Service := do
  let watch ← watchFor settings r
  let manifests := r.loaded.map (·.1.manifest)
  let (_, scheduler) :=
    Schedule.Scheduler.empty.scheduleAll r.loader.registry.contains now manifests
  match scheduler.start with
  | (.ok (), scheduler) => return ⟨r, watch, scheduler, .empty⟩
  | (.error e, _) => .error ("failed to start scheduler" :: causesOf e)

/-- Reloads what has changed, and runs what is due. -/
def step (now : Int) (files : FileTree) (changed : List Path) (s : Service) : Service :=
  let loader := s.runtime.loader
  let (plugins, host) := s.watch.round changed loader.plugins { s.runtime.host with files }
  let loader := { loader with plugins }
  let (scheduler, (loader, host), store) :=
    (executorOf loader).advance (fun _ => false) now s.scheduler (loader, host) s.store
  { s with runtime := { s.runtime with loader, host }, scheduler, store }

end Service

/-! ## Calls -/

/-- What a call comes to. -/
inductive Call where
  /-- The output, the report of a failure, and the exit code. -/
  | ended (output error : String) (code : Nat)
  | serving (service : Service)

namespace Call

def ofOutcome (o : Outcome) : Call :=
  match o.result with
  | .ok () => .ended o.output "" 0
  | .error causes => .ended o.output (report causes) 1

/-- A command that needs the plugins. -/
def withRuntime (settings : Settings) (environment : Variables) (files : FileTree)
    (run : Runtime → Call) : Call :=
  match Runtime.load settings environment files with
  | .ok r => run r
  | .error causes => ofOutcome (.failed causes)

def ofCommand (settings : Settings) (environment : Variables) (files : FileTree) (now : Int)
    (json : Bool) : Command → Call
  | .serve => withRuntime settings environment files fun r =>
      match Service.start settings now r with
      | .ok s => .serving s
      | .error causes => ofOutcome (.failed causes)
  | .list => withRuntime settings environment files fun r => ofOutcome (list json r)
  | .schema provider =>
    withRuntime settings environment files fun r => ofOutcome (schema provider r)
  | .trigger provider target =>
    withRuntime settings environment files fun r => ofOutcome (trigger provider target now r)
  | .check directory => ofOutcome (check directory files)

/-- Runs the application. -/
def run (args : List String) (environment : Variables) (files : FileTree) (now : Int) : Call :=
  match Arguments.read args with
  | .error (.help topic full) => .ended (topic.page full) "" 0
  | .error .version => .ended (lines [name ++ " " ++ version]) "" 0
  | .error .misuse => .ended "" (lines [Topic.application.usage]) 2
  | .ok call =>
    match Settings.load files call.settings with
    | .error fault => ofOutcome (.failed fault.causes)
    | .ok settings =>
      ofCommand settings (Variables.withFile files environment) files now call.json call.command

end Call

end TrieFeed.App
