import TrieFeed.Config.Resolver
import TrieFeed.Plugin.Basic
import TrieFeed.Provider.Registry
/-!
# Loading plugins

A loader keeps every plugin it has loaded, in order, and knows each by its number in that order. The
registry holds the numbers of those that stand for their names. A plugin that fails to load is
reported and does not affect the others.
-/
namespace TrieFeed

structure Loader where
  directory : Path
  resolver : Resolver
  /-- Why the saved settings of a provider cannot be read, if they cannot. -/
  settingsFault? : String → Option ProviderError
  plugins : List Plugin
  registry : Registry Nat
deriving Inhabited

/-- A plugin's number, with how it turned out to be right after loading. -/
structure Loaded where
  number : Nat
  readiness : Readiness
deriving Inhabited

/-- The outcome of loading all plugins of a directory. -/
structure LoadSummary where
  loaded : List Loaded
  failed : List (Path × PluginError)
deriving Inhabited

def LoadSummary.available (s : LoadSummary) : List Loaded :=
  s.loaded.filter (·.readiness == .available)

namespace Loader

/-- Work on a loader and the host. -/
abbrev Step (α : Type) := Loader → Host → Except PluginError α × Loader × Host

/-- A loader that has loaded nothing yet. -/
def create (directory : Path) (resolver : Resolver) : Loader :=
  ⟨directory, resolver, fun _ => none, [], .empty⟩

/-- Directories below the plugins directory that hold a manifest, in order. -/
def discover (directory : Path) (files : FileTree) : Except PluginError (List Path) :=
  match files.find directory with
  | .error _ => .ok []
  | .ok place =>
    if files.isDirectory directory then
      .ok (((files.names place).map fun name => directory.join ⟨false, [.name name]⟩).filter
        fun path => files.isFile (path.join (Path.read Manifest.fileName)))
    else .error (.file s!"{directory.text} is not a directory")

/-- The settings of a plugin: defaults, then those of its schedule, then all layers. -/
def resolve (manifest : Manifest) (defaults : Record) (l : Loader) :
    Except ProviderError Record :=
  match l.settingsFault? manifest.name with
  | some e => .error e
  | none =>
    let scheduled := (manifest.schedule.map (·.config)).getD []
    .ok (l.resolver.resolve manifest.name (Fields.merge defaults scheduled))

/-- Starts a plugin unless it needs settings and nobody has set any. -/
def configure (l : Loader) : Plugin.Step Readiness := fun p h =>
  match Plugin.schemaFrom Script.EntryPoint.connectionSchema p h with
  | (.error e, p, h) => (.error e, p, h)
  | (.ok schema, p, h) =>
    match l.resolve p.manifest schema.defaults with
    | .error e => (.error (.contract e), p, h)
    | .ok settings =>
      if !l.resolver.hasExplicit p.name && schema.hasRequired then (.ok .notConfigured, p, h)
      else
        match Plugin.start settings p h with
        | (.ok (), p, h) => (.ok .available, p, h)
        | (.error e, p, h) => (.error e, p, h)

/-- Closes the plugin of a number. -/
def closePlugin (number : Nat) (l : Loader) (h : Host) : Loader × Host :=
  match l.plugins[number]? with
  | none => (l, h)
  | some p =>
    match p.close h with
    | (p, h) => ({ l with plugins := l.plugins.set number p }, h)

/-- Registers the number of the next plugin, and closes the plugin that stood for the name. -/
def registerNext (name : String) (l : Loader) (h : Host) : Loader × Host :=
  match l.registry.register name l.plugins.length with
  | (none, registry) => ({ l with registry }, h)
  | (some previous, registry) => closePlugin previous { l with registry } h

/-- Loads, registers and configures the plugin of a manifest. -/
def loadManifest (manifest : Manifest) (directory : Path) : Step Loaded := fun l h =>
  match Plugin.ofManifest manifest directory h with
  | (.error e, h) => (.error e, l, h)
  | (.ok p, h) =>
    match registerNext manifest.name l h with
    | (l, h) =>
      match l.configure p h with
      | (result, p, h) =>
        (.ok ⟨l.plugins.length, (result.toOption).getD .error⟩,
          { l with plugins := l.plugins ++ [p] }, h)

/-- Loads the plugin in a directory. -/
def load (directory : Path) : Step Loaded := fun l h =>
  match Manifest.load h.files directory with
  | .error e => (.error e, l, h)
  | .ok manifest => loadManifest manifest directory l h

/-- Loads the plugins in directories; one without its script is passed over. -/
def loadEach : List Path → LoadSummary → Loader → Host → LoadSummary × Loader × Host
  | [], s, l, h => (s, l, h)
  | directory :: rest, s, l, h =>
    match Manifest.load h.files directory with
    | .error e => loadEach rest { s with failed := s.failed ++ [(directory, e)] } l h
    | .ok manifest =>
      if h.files.isFile (manifest.scriptPath directory) then
        match loadManifest manifest directory l h with
        | (.ok loaded, l, h) => loadEach rest { s with loaded := s.loaded ++ [loaded] } l h
        | (.error e, l, h) => loadEach rest { s with failed := s.failed ++ [(directory, e)] } l h
      else loadEach rest s l h

/-- Loads every plugin below the plugins directory. -/
def loadAll : Step LoadSummary := fun l h =>
  match discover l.directory h.files with
  | .error e => (.error e, l, h)
  | .ok directories =>
    match loadEach directories ⟨[], []⟩ l h with
    | (summary, l, h) => (.ok summary, l, h)

/-- An operation on the plugin of a number. -/
def through {α : Type} (number : Nat) (work : Action (Plugin × Host) α) :
    Action (Loader × Host) α := fun (l, h) =>
  match l.plugins[number]? with
  | none => (.error (.notFound (toString number)), l, h)
  | some p =>
    match work (p, h) with
    | (result, p, h) => (result, { l with plugins := l.plugins.set number p }, h)

/-- The provider that a numbered plugin is, acting within its loader. -/
def offered (number : Nat) (p : Provider (Plugin × Host)) : Provider (Loader × Host) where
  name := p.name
  description := p.description
  metadata := p.metadata
  readiness s := (s.1.plugins[number]?.map fun q => p.readiness (q, s.2)).getD .error
  start config := through number (p.start config)
  fetch config := through number (p.fetch config)
  key record := through number (p.key record)
  value record := through number (p.value record)
  validate record := through number (p.validate record)
  schema := through number p.schema
  connectionSchema := through number p.connectionSchema
  test config := through number (p.test config)
  reconfigure config := through number (p.reconfigure config)
  keyFromInput input := through number (p.keyFromInput input)
  close s := closePlugin number s.1 s.2

/-- The registered plugins as providers. -/
def providers (l : Loader) : Registry (Provider (Loader × Host)) :=
  ⟨l.registry.entries.filterMap fun (name, number) =>
    l.plugins[number]?.map fun p => (name, offered number (Plugin.provider p.manifest))⟩

/-- Closes every plugin. -/
def close (l : Loader) (h : Host) : Loader × Host :=
  (List.range l.plugins.length).foldl (fun (l, h) number => closePlugin number l h) (l, h)

end Loader

end TrieFeed
