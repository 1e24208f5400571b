import TrieFeed.Files.Tree
import TrieFeed.Plugin.Error
import TrieFeed.Plugin.Sandbox
import TrieFeed.Provider.Report
import TrieFeed.Schedule.Plan
/-!
# Manifests

The manifest of a plugin names it, describes it and declares its language, schedule and sandbox.
Only the name is required, and it may not be blank.
-/
namespace TrieFeed

/-- The languages of provider scripts. -/
inductive Language where
  | javascript
  | python
deriving DecidableEq, Inhabited

namespace Language

def name : Language → String
  | .javascript => "javascript"
  | .python => "python"

/-- The name as it is written in prose. -/
def properName : Language → String
  | .javascript => "JavaScript"
  | .python => "Python"

/-- The name of the script file. -/
def scriptFile : Language → String
  | .javascript => "provider.js"
  | .python => "provider.py"

/-- The language of a name in any case; unknown names mean the first. -/
def ofName (name : String) : Language :=
  match Text.asciiLower (Text.trimmed name) with
  | "python" | "py" => .python
  | _ => .javascript

def ofScriptFile? (file : String) : Option Language :=
  [javascript, python].find? (·.scriptFile = file)

end Language

structure Manifest where
  name : String
  description : String
  version : String
  author : Option String
  language : Language
  dataSource : Option String
  tags : List String
  schedule : Option Schedule.Plan
  sandbox : Sandbox
deriving Inhabited

namespace Manifest

/-- The file that holds the manifest of a plugin. -/
def fileName : String := "manifest.json"

/-- Why a text is not a manifest. -/
inductive Fault where
  | unreadable (reason : String)
  | malformed
  | blankName
deriving DecidableEq

def Fault.message : Fault → String
  | .unreadable reason => reason
  | .malformed => "not a manifest document"
  | .blankName => "`name` must not be empty"

/-- The error for the manifest at a path. -/
def Fault.toError (path : String) (fault : Fault) : PluginError := .manifest path fault.message

def slots : List Json.Slot :=
  .plain "name" :: (["description", "version", "author", "language", "dataSource", "tags",
    "schedule", "sandbox"].map .optional)

def ofJson? (json : Json) : Option Manifest :=
  match json.record? slots with
  | some [name, description, version, author, language, dataSource, tags, schedule, sandbox] => do
    return {
      name := ← Json.required? Json.text? name
      description := ← Json.defaulted? "" Json.text? description
      version := ← Json.defaulted? "1.0.0" Json.text? version
      author := ← Json.absentable? Json.text? author
      language := Language.ofName (← Json.defaulted? "javascript" Json.text? language)
      dataSource := ← Json.absentable? Json.text? dataSource
      tags := ← Json.defaulted? [] (Json.listOf? Json.text?) tags
      schedule := ← Json.absentable? Schedule.Plan.ofJson? schedule
      sandbox := ← Json.defaulted? .default Sandbox.ofJson? sandbox }
  | _ => none

def read (text : String) : Except Fault Manifest :=
  match (Json.readWritten? text).bind ofJson? with
  | none => .error .malformed
  | some m => if Text.allBlank m.name then .error .blankName else .ok m

/-- The manifest of the plugin in a directory. -/
def load (files : FileTree) (directory : Path) : Except PluginError Manifest :=
  let path := directory.join (Path.read fileName)
  ((files.readText path).mapError (Fault.unreadable ·.message) |>.bind read).mapError
    (·.toError path.text)

/-- Where the script of the plugin in a directory is. -/
def scriptPath (m : Manifest) (directory : Path) : Path :=
  directory.join (Path.read m.language.scriptFile)

def toJson (m : Manifest) : Json :=
  .object [("name", .text m.name), ("description", .text m.description),
    ("version", .text m.version), ("author", Schedule.Plan.optionalText m.author),
    ("language", .text m.language.name), ("dataSource", Schedule.Plan.optionalText m.dataSource),
    ("tags", .list (m.tags.map .text)),
    ("schedule", match m.schedule with
      | some p => p.toJson
      | none => .null),
    ("sandbox", m.sandbox.toJson)]

/-- The schedule, if there is one and it is enabled. -/
def activeSchedule? (m : Manifest) : Option Schedule.Plan := m.schedule.filter (·.enabled)

def metadata (m : Manifest) : Metadata where
  name := m.name
  description := m.description
  version := m.version
  author := m.author
  language := m.language.name
  dataSource := m.dataSource
  tags := m.tags
  scheduled := m.activeSchedule?.isSome

end Manifest

end TrieFeed
