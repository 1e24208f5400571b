import TrieFeed.Plugin.Context
import TrieFeed.Provider.Basic
/-!
# Plugins

A plugin is a provider whose work is done by the script in a directory. Data is asked of the live
context once it is initialized; schemas and trials are asked of a context of their own, so that they
leave the live one alone.
-/
namespace TrieFeed

structure Plugin where
  manifest : Manifest
  directory : Path
  context : Context
  /-- The configuration that was last accepted, with which a reload starts the script again. -/
  lastConfig : Option Record
deriving Inhabited

namespace Plugin

/-- Work on a plugin and the host. -/
abbrev Step (α : Type) := Plugin → Host → Except PluginError α × Plugin × Host

def name (p : Plugin) : String := p.manifest.name

def scriptPath (p : Plugin) : Path := p.manifest.scriptPath p.directory

/-- The plugin of a manifest, with its script loaded. -/
def ofManifest (manifest : Manifest) (directory : Path) (h : Host) :
    Except PluginError Plugin × Host :=
  match Context.createLoaded manifest.name manifest.language (manifest.scriptPath directory)
      manifest.sandbox h with
  | (.ok context, h) => (.ok ⟨manifest, directory, context, none⟩, h)
  | (.error e, h) => (.error e, h)

/-- The plugin in a directory. -/
def ofDirectory (directory : Path) (h : Host) : Except PluginError Plugin × Host :=
  match Manifest.load h.files directory with
  | .ok manifest => ofManifest manifest directory h
  | .error e => (.error e, h)

def isInitialized (p : Plugin) : Bool := p.context.phase == .initialized

def readiness (p : Plugin) : Readiness :=
  match p.context.phase with
  | .initialized => .available
  | .failed | .closed => .error
  | _ => .notConfigured

def inContext {α : Type} (work : Context.Step α) : Step α := fun p h =>
  match work p.context h with
  | (result, context, h) => (result, { p with context }, h)

/-- Reads the result of some work. -/
def reading {α β : Type} (read : α → Except PluginError β) (work : Step α) : Step β := fun p h =>
  match work p h with
  | (result, p, h) => (result.bind read, p, h)

/-- Keeps a configuration with which some work has succeeded. -/
def keeping (config : Record) (work : Step Unit) : Step Unit := fun p h =>
  match work p h with
  | (.ok (), p, h) => (.ok (), { p with lastConfig := some config }, h)
  | (.error e, p, h) => (.error e, p, h)

def start (config : Record) : Step Unit := keeping config (inContext (Context.start config))

/-- Hands over a configuration, by the script's own way if it has one and has been started. -/
def reconfigure (config : Record) : Step Unit := fun p h =>
  let work : Step Unit :=
    if p.isInitialized && p.context.defines Script.EntryPoint.reconfigure then
      reading (fun _ => .ok ())
        (inContext (Context.call Script.EntryPoint.reconfigure [.map config]))
    else inContext (Context.start config)
  keeping config work p h

/-- Replaces the script by its file as it is now, and starts it if the old one had been. -/
def reload : Step Unit := fun p h =>
  inContext (Context.reload (if p.isInitialized then p.lastConfig else none)) p h

def close (p : Plugin) (h : Host) : Plugin × Host :=
  match p.context.close h with
  | (context, h) => ({ p with context }, h)

/-- Work on data, which only an initialized plugin does. -/
def whenInitialized {α : Type} (work : Step α) : Step α := fun p h =>
  if p.isInitialized then work p h else (.error (.notInitialized p.name), p, h)

def callData (entryPoint : String) (args : List Value) : Step Value :=
  whenInitialized (inContext (Context.call entryPoint args))

/-- Records are maps in a list, counted from zero; null stands for none. -/
def recordsFrom : Nat → List Value → Except PluginError (List Record)
  | _, [] => .ok []
  | i, .map record :: rest => (recordsFrom (i + 1) rest).map (record :: ·)
  | i, v :: _ =>
    .error (.unsupportedValue s!"fetchData record {i} is {v.typeName}, expected an object")

def recordsOf : Value → Except PluginError (List Record)
  | .null => .ok []
  | .list vs => recordsFrom 0 vs
  | v => .error (.unsupportedValue
      s!"fetchData must return a list of records, got {v.typeName}")

def bytesOf (entryPoint : String) (v : Value) : Except PluginError Bytes :=
  match v.detectBytes.toBytes? with
  | some bytes => .ok bytes
  | none => .error (.unsupportedValue
      s!"{entryPoint} must return bytes, got {v.detectBytes.typeName}")

def fetch (config : Record) : Step (List Record) :=
  reading recordsOf (callData Script.EntryPoint.fetch [.map config])

def callBytes (entryPoint : String) (arg : Value) : Step Bytes :=
  reading (bytesOf entryPoint) (callData entryPoint [arg])

def key (record : Record) : Step Bytes := callBytes Script.EntryPoint.key (.map record)

def value (record : Record) : Step Bytes := callBytes Script.EntryPoint.value (.map record)

def keyFromInput (input : String) : Step Bytes := fun p h =>
  let entryPoint := Script.EntryPoint.keyFromInput
  if p.context.defines entryPoint then callBytes entryPoint (.text input) p h
  else (.error (.unsupported p.name entryPoint), p, h)

def validate (record : Record) : Step Verdict :=
  whenInitialized fun p h =>
    if p.context.defines Script.EntryPoint.validate then
      reading (.ok ∘ Verdict.ofValue)
        (inContext (Context.call Script.EntryPoint.validate [.map record])) p h
    else (.ok .pass, p, h)

/-- What an entry point of a context of its own yields, if the script defines it. -/
def askAside (entryPoint : String) (args : List Value) (p : Plugin) (h : Host) :
    Except PluginError (Option Value) × Host :=
  match Context.createLoaded p.name p.manifest.language p.scriptPath p.manifest.sandbox h with
  | (.error e, h) => (.error e, h)
  | (.ok c, h) =>
    if c.defines entryPoint then
      match c.call entryPoint args h with
      | (result, c, h) => (result.map some, (c.close h).2)
    else (.ok none, (c.close h).2)

def schemaFrom (entryPoint : String) : Step Schema := fun p h =>
  match askAside entryPoint [] p h with
  | (result, h) => (result.map fun answer => (answer.map Schema.ofValue).getD .empty, p, h)

/-- Tries a configuration; a script that fails has answered no. -/
def test (config : Record) : Step Trial := fun p h =>
  match askAside Script.EntryPoint.test [.map config] p h with
  | (.ok answer, h) => (.ok ((answer.map Trial.ofValue).getD .pass), p, h)
  | (.error (.script provider entryPoint reason), h) =>
    (.ok ⟨false, (PluginError.script provider entryPoint reason).message⟩, p, h)
  | (.error e, h) => (.error e, p, h)

/-- The text that stands for a plugin in diagnostics. -/
def summary (p : Plugin) : String :=
  "PolyglotProvider \x7b name: " ++ Text.quoted p.name ++ ", language: " ++
    p.manifest.language.properName ++ ", script_path: " ++ Text.quoted p.scriptPath.text ++
    ", .. \x7d"

/-- The work as an operation of the provider contract. -/
def offered {α : Type} (work : Step α) : Action (Plugin × Host) α := fun (p, h) =>
  match work p h with
  | (result, p, h) => (result.mapError PluginError.toProviderError, p, h)

/-- The provider that the plugins of a manifest offer. -/
def provider (m : Manifest) : Provider (Plugin × Host) where
  name := m.name
  description := m.description
  metadata := m.metadata
  readiness s := s.1.readiness
  start config := offered (start config)
  fetch config := offered (fetch config)
  key record := offered (key record)
  value record := offered (value record)
  validate record := offered (validate record)
  schema := offered (schemaFrom Script.EntryPoint.schema)
  connectionSchema := offered (schemaFrom Script.EntryPoint.connectionSchema)
  test config := offered (test config)
  reconfigure config := offered (reconfigure config)
  keyFromInput input := offered (keyFromInput input)
  close s := s.1.close s.2

end Plugin

end TrieFeed
