import TrieFeed.App.Arguments
import TrieFeed.App.Settings
import TrieFeed.App.Variables
import TrieFeed.Json.Printer
import TrieFeed.Plugin.Loader
import TrieFeed.Provider.Schema.Wire
import TrieFeed.Schedule.Scheduler
/-!
# Commands

What each command writes and what it ends in. A command loads the plugins anew, does one thing with
them and closes them. What has been written stays written when the command fails afterwards.
-/
namespace TrieFeed.App

/-- What went wrong, the outermost first, each followed by its cause. -/
abbrev Causes := List String

/-- What a command has written, and what it has ended in. -/
structure Outcome where
  output : String
  result : Except Causes Unit

namespace Outcome

def done (output : String) : Outcome := ⟨output, .ok ()⟩

def failed (causes : Causes) : Outcome := ⟨"", .error causes⟩

end Outcome

/-- Lines, each of them ended. -/
def lines (texts : List String) : String := String.join (texts.map (· ++ "\n"))

/-- The causes of a plugin's error; a file's fault is told twice. -/
def causesOf (e : PluginError) : Causes :=
  match e with
  | .file reason => [e.message, reason]
  | e => [e.message]

/-! ## Reports of failure -/

/-- One cause among several, or alone. Further lines of it are indented as its first one is. -/
def causeText (number : Option Nat) (cause : String) : String :=
  let lead := match number with
    | some n => String.ofList (List.replicate (5 - (toString n).length) ' ') ++ toString n ++ ": "
    | none => "    "
  let indent := if number.isSome then "       " else "    "
  lead ++ Text.replaceAll "\n" ("\n" ++ indent) cause

def numbered : Nat → List String → List String
  | _, [] => []
  | n, cause :: rest => causeText (some n) cause :: numbered (n + 1) rest

/-- The report of a failure with its causes. -/
def report : Causes → String
  | [] => "Error: \n"
  | [failure] => lines ["Error: " ++ failure]
  | [failure, cause] => lines ["Error: " ++ failure, "", "Caused by:", causeText none cause]
  | failure :: causes => lines (["Error: " ++ failure, "", "Caused by:"] ++ numbered 0 causes)

/-! ## Loading -/

/-- The names in the manifests below a directory, which variables are matched with. -/
def manifestNames (directory : Path) (files : FileTree) : List String :=
  match files.find directory with
  | .error _ => []
  | .ok place =>
    (files.names place).filterMap fun name =>
      ((Manifest.load files (directory.join ⟨false, [.name name]⟩)).toOption).map (·.name)

/-- Loaded plugins, with what became of each directory. -/
structure Runtime where
  loader : Loader
  summary : LoadSummary
  host : Host

def Runtime.load (settings : Settings) (environment : Variables) (files : FileTree) :
    Except Causes Runtime :=
  let directory := Path.read settings.pluginsDirectory
  let resolver := settings.resolver (manifestNames directory files) environment
  match Loader.loadAll (.create directory resolver) (Host.ofFiles files) with
  | (.ok summary, loader, host) => .ok ⟨loader, summary, host⟩
  | (.error e, _, _) =>
    .error (s!"failed to load providers from {settings.pluginsDirectory}" :: causesOf e)

/-- Loaded plugins with how each turned out to be. -/
def Runtime.loaded (r : Runtime) : List (Plugin × Readiness) :=
  r.summary.loaded.filterMap fun l =>
    r.loader.plugins[l.number]?.map fun p => (p, l.readiness)

/-! ## The commands -/

/-- A text with blanks up to a width. -/
def padded (width : Nat) (s : String) : String :=
  s ++ String.ofList (List.replicate (width - s.length) ' ')

/-- A row of the listing. -/
def row (name language version status : String) : String :=
  padded 24 name ++ " " ++ padded 12 language ++ " " ++ padded 10 version ++ " " ++ status

def listingJson (r : Runtime) : Json :=
  .list (r.loaded.map fun (p, readiness) =>
    .object [("metadata", p.manifest.metadata.toJson), ("status", .text readiness.wireName)])

def listing (r : Runtime) : List String :=
  row "NAME" "LANGUAGE" "VERSION" "STATUS" ::
    (r.loaded.map fun (p, readiness) =>
      row p.name p.manifest.language.name p.manifest.version readiness.label) ++
    (r.summary.failed.map fun (path, e) => s!"failed: {path.text} ({e.message})")

def list (json : Bool) (r : Runtime) : Outcome :=
  .done (lines (if json then [(listingJson r).wide] else listing r))

def schema (provider : String) (r : Runtime) : Outcome :=
  let schemas : Except ProviderError Json :=
    match r.loader.providers.find provider with
    | .error e => .error e
    | .ok p =>
      match p.schema (r.loader, r.host) with
      | (.error e, _) => .error e
      | (.ok schema, s) =>
        match p.connectionSchema s with
        | (.error e, _) => .error e
        | (.ok connection, _) =>
          .ok (.object [("configSchema", schema.toJson),
            ("connectionConfigSchema", connection.toJson)])
  match schemas with
  | .ok json => .done (lines [json.wide])
  | .error e => .failed [e.message]

/-- What runs of loaded plugins need. -/
def executorOf (l : Loader) : Schedule.Executor (Loader × Host) := ⟨l.providers, none⟩

/-- The scheduler of one run; the plugin's active schedule says with which settings. -/
def scheduleFor (manifest : Manifest) (now : Int) : Except PluginError Schedule.Scheduler :=
  match manifest.activeSchedule? with
  | none => .ok .empty
  | some plan =>
    match Schedule.Scheduler.empty.schedule manifest.name plan now with
    | (.ok (), s) => .ok s
    | (.error e, _) => .error e

/-- The target of a run, given or by the pattern of the plugin's schedule. -/
def targetFor (manifest : Manifest) (target : Option String) (now : Int) : String :=
  target.getD (Schedule.targetName
    ((manifest.schedule.bind (·.target)).getD Schedule.defaultPattern) manifest.name now)

def trigger (provider : String) (target : Option String) (now : Int) (r : Runtime) : Outcome :=
  match r.loaded.find? (·.1.name = provider) with
  | none => .failed [s!"provider `{provider}` is not loaded"]
  | some (p, _) =>
    let target := targetFor p.manifest target now
    let store := TrieStore.empty.create target Schedule.Executor.scheme
    match scheduleFor p.manifest now with
    | .error e => .failed (causesOf e)
    | .ok schedule =>
      match (executorOf r.loader).trigger provider (some target) none now schedule
          (r.loader, r.host) store with
      | (.error e, _) => .failed (causesOf e)
      | (.ok report, _) =>
        let output := lines [(report.toJson now now).wide]
        if report.isClean then .done output
        else ⟨output, .error [s!"ingestion finished with {report.errors.length} error(s)"]⟩

def check (directory : String) (files : FileTree) : Outcome :=
  let path := Path.read directory
  match Manifest.load files path with
  | .error e => .failed (causesOf e)
  | .ok manifest =>
    let head := ["provider:  " ++ manifest.name ++ " " ++ manifest.version,
      "language:  " ++ manifest.language.name, "script:    " ++ (manifest.scriptPath path).text]
    match Plugin.ofManifest manifest path (Host.ofFiles files) with
    | (.error e, _) => ⟨lines head, .error ("script failed to load" :: causesOf e)⟩
    | (.ok p, _) =>
      let entryPoints := p.context.entryPoints
      let output := lines (head ++ ["entries:   " ++ ", ".intercalate entryPoints])
      let missing := Script.EntryPoint.required.filter fun name => !entryPoints.contains name
      if missing.isEmpty then .done (output ++ lines ["ok"])
      else ⟨output, .error ["missing required entry point(s): " ++ ", ".intercalate missing]⟩

end TrieFeed.App
