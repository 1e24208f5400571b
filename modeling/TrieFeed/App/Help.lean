import TrieFeed.App.Commands
/-!
# Help

The pages of help on the application and on its commands. A page in short form has a row for each
thing; the full form of the application's page gives each option a paragraph.
-/
namespace TrieFeed.App

def name : String := "dataprover"

def version : String := "0.1.8"

def Verb.about : Verb → String
  | .serve => "Load every provider, watch for script changes and run schedules until interrupted"
  | .list => "List discovered providers and their status"
  | .schema => "Print a provider's configuration schemas as JSON"
  | .trigger => "Run one ingestion for a provider and print the report"
  | .check => "Check a single provider directory without registering it"

/-- An option of a page: how it is given, what it does and what stands in for it. -/
structure OptionHelp where
  form : String
  text : String
  standIn : Option String

namespace OptionHelp

def defaultText (o : OptionHelp) : List String := match o.standIn with
  | some value => ["[default: " ++ value ++ "]"]
  | none => []

/-- The text in one line. -/
def line (o : OptionHelp) : String := " ".intercalate (o.text :: o.defaultText)

/-- The lines of a paragraph on the option. -/
def paragraph (o : OptionHelp) : List String :=
  let indented (s : String) : String := "          " ++ s
  ("  " ++ o.form) :: indented o.text :: o.defaultText.flatMap fun s => [indented "", indented s]

end OptionHelp

namespace Topic

def about (full : Bool) : Topic → String
  | .application =>
    if full then
      "Loads provider scripts from a plugins directory, keeps them reloaded as they change, and " ++
        "ingests their records on a schedule."
    else "dataprover -- run JavaScript and Python data providers"
  | .command verb => verb.about
  | .help => "Print this message or the help of the given subcommand(s)"

/-- The words that a topic's command takes, with what they mean. -/
def words : Topic → List (String × String)
  | .command .schema | .command .trigger => [("<PROVIDER>", "Provider name")]
  | .command .check =>
    [("<DIR>", "Directory containing `manifest.json` and the script")]
  | .help => [("[COMMAND]...", "Print help for the subcommand(s)")]
  | .application | .command _ => []

def usage (t : Topic) : String :=
  "Usage: " ++ " ".intercalate (name :: match t with
    | .application => ["[OPTIONS]", "<COMMAND>"]
    | .command verb => verb.word :: "[OPTIONS]" :: t.words.map (·.1)
    | .help => "help" :: t.words.map (·.1))

def commands : List (String × String) :=
  Verb.all.map (fun verb => (verb.word, verb.about)) ++ [("help", Topic.help.about false)]

/-- What is said of the option that asks for help; only the application has two forms of it. -/
def helpHint (full : Bool) : Topic → String
  | .application => if full then " (see a summary with '-h')" else " (see more with '--help')"
  | _ => ""

def options (full : Bool) (t : Topic) : List OptionHelp :=
  let settings : OptionHelp := ⟨"-c, --config <CONFIG>", "Path to the runtime configuration file",
    some Arguments.defaultSettings⟩
  let target : OptionHelp := ⟨"-t, --target <TARGET>",
    "Target identifier. Defaults to the provider's schedule template", none⟩
  let json : OptionHelp := ⟨"    --json", "Emit logs as JSON lines", none⟩
  let help : OptionHelp := ⟨"-h, --help", "Print help" ++ helpHint full t, none⟩
  let version : OptionHelp := ⟨"-V, --version", "Print version", none⟩
  if t = .help then []
  else [settings] ++ (if t.takesTarget then [target] else []) ++ [json, help] ++
    (if t.hasVersion then [version] else [])

/-- Rows of two columns. -/
def rows (entries : List (String × String)) : List String :=
  let width := entries.foldl (fun w entry => max w entry.1.length) 0
  entries.map fun (first, second) => "  " ++ padded width first ++ "  " ++ second

/-- A headed part of a page, left out where there is nothing in it. -/
def part (heading : String) (body : List String) : List String :=
  if body.isEmpty then [] else ["", heading] ++ body

/-- The page on a topic; commands have no more to say in full. -/
def page (full : Bool) (t : Topic) : String :=
  let full := full && t = .application
  let options := t.options full
  lines ([t.about full, "", t.usage] ++
    part "Commands:" (if t = .application then rows commands else []) ++
    part "Arguments:" (rows t.words) ++
    part "Options:" (if full then [""].intercalate (options.map (·.paragraph))
      else rows (options.map fun o => (o.form, o.line))))

end Topic

end TrieFeed.App
