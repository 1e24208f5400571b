import TrieFeed.Config.Resolver
import TrieFeed.Files.Tree
import TrieFeed.Toml.Reader
/-!
# Settings of the application

Settings come from a document with a `runtime` table and one table for each provider. What is
missing has a default, and a document that is missing has nothing but defaults.
-/
namespace TrieFeed.App

structure Settings where
  pluginsDirectory : String
  hotReload : Bool
  logLevel : String
  /-- The settings of providers, in order of names. -/
  providers : Fields Record
deriving Inhabited

namespace Settings

def default : Settings := ⟨"plugins", true, "info", []⟩

def text? : Toml → Option String
  | .text s => some s
  | _ => none

def bool? : Toml → Option Bool
  | .bool b => some b
  | _ => none

/-- A value that may be missing. -/
def defaulted? {α : Type} (fallback : α) (read : Toml → Option α) : Option Toml → Option α
  | none => some fallback
  | some t => read t

def runtime? (directory hotReload logLevel : Option Toml) : Option Settings := do
  return ⟨← defaulted? default.pluginsDirectory text? directory,
    ← defaulted? default.hotReload bool? hotReload,
    ← defaulted? default.logLevel text? logLevel, []⟩

/-- The settings of the `runtime` table, which may also be a list of them in order. A moment names
none of them. -/
def ofRuntime? : Toml → Option Settings
  | .table _ fields => runtime? (Fields.get? "plugins_dir" fields)
      (Fields.get? "hot_reload" fields) (Fields.get? "log_level" fields)
  | .list items => runtime? items[0]? items[1]? items[2]?
  | .tables items => runtime? items[0]? items[1]? items[2]?
  | .moment _ => some default
  | _ => none

/-- The settings of one provider. A moment counts as a table of one field. -/
def record? (t : Toml) : Option Record :=
  match t with
  | .moment text => some [("$__toml_private_datetime", .text text)]
  | .table _ _ => t.toValue.map?
  | _ => none

def ofProviders? : Toml → Option (Fields Record)
  | .table _ fields => do
    let records ← fields.mapM fun field => (record? field.2).map fun r => (field.1, r)
    return Fields.sorted records
  | _ => none

def ofDocument? (root : Fields Toml) : Option Settings := do
  let runtime ← defaulted? default ofRuntime? (Fields.get? "runtime" root)
  let providers ← defaulted? [] ofProviders? (Fields.get? "providers" root)
  return { runtime with providers }

/-- Reads the text of a settings document. -/
def read? (text : String) : Option Settings := (Toml.read? text).bind ofDocument?

/-- Why a settings document cannot be used. -/
inductive Fault where
  | unreadable (path : String) (fault : FileFault)
  | malformed (path : String)
deriving DecidableEq

/-- What went wrong, followed by its cause. -/
def Fault.causes : Fault → List String
  | unreadable path fault => [s!"failed to read {path}", fault.message]
  | malformed path => [s!"failed to parse {path}", "not a settings document"]

/-- Loads the document at a path. -/
def load (files : FileTree) (path : String) : Except Fault Settings :=
  if files.holds (Path.read path) then
    match files.readText (Path.read path) with
    | .error fault => .error (.unreadable path fault)
    | .ok text =>
      match read? text with
      | none => .error (.malformed path)
      | some settings => .ok settings
  else .ok default

/-- The layers of settings: those of the document, and those of variables for the given names and
the names in the document. -/
def resolver (names : List String) (environment : List (String × String)) (s : Settings) :
    Resolver :=
  let missing := (Fields.names s.providers).filter fun name => !names.contains name
  let written := s.providers.foldl (fun r field => Resolver.withStatic field.1 field.2 r) .empty
  written.withEnv (names ++ missing) environment

end Settings

end TrieFeed.App
