import TrieFeed.Provider.Error
import TrieFeed.Provider.Schema
/-!
# Layered settings

The settings of a provider are its defaults, overlaid by the static layer of files and environment
variables, overlaid by the layer that was saved at run time. Secrets are masked for display, and a
mask that comes back in an update keeps the secret that was saved.
-/
namespace TrieFeed

/-- What display shows for a secret. -/
def mask : String := "****"

/-- The start of every environment variable that sets a provider. -/
def envLead : String := "DATAPROVER_PROVIDER_"

/-- The layer saved at run time, by provider. -/
abbrev SavedSettings := Fields Record

namespace SavedSettings

/-- What is saved for a provider; nothing is saved for one that is not known. -/
def load (provider : String) (saved : SavedSettings) : Record := (Fields.get? provider saved).getD []

/-- Saves settings in place of all that was saved for a provider. -/
def replace (provider : String) (settings : Record) (saved : SavedSettings) : SavedSettings :=
  Fields.insert provider settings saved

variable {provider : String} {settings : Record}

theorem load_replace_self (saved : SavedSettings) :
    load provider (replace provider settings saved) = settings := by
  rw [load, replace, Fields.get?_insert_self]
  rfl

theorem load_replace_of_ne {other : String} (h : other ≠ provider) (saved : SavedSettings) :
    load provider (replace other settings saved) = load provider saved := by
  rw [load, replace, Fields.get?_insert_of_ne h, load]

end SavedSettings

/-- Static layers by provider, and the saved layer where a store is attached. -/
structure Resolver where
  layers : Fields Record
  saved : Option SavedSettings
deriving Inhabited

namespace Resolver

def empty : Resolver := ⟨[], none⟩

/-- The static layer of a provider. -/
def staticFor (provider : String) (r : Resolver) : Record :=
  (Fields.get? provider r.layers).getD []

/-- Overlays settings on the static layer of a provider. -/
def withStatic (provider : String) (settings : Record) (r : Resolver) : Resolver :=
  let merged := Fields.merge (r.staticFor provider) settings
  { r with layers := Fields.insert provider merged r.layers }

/-- The form of a provider's name in environment variables. -/
def envName (provider : String) : String :=
  .ofList (provider.toList.map fun c =>
    if c = '-' ∨ c = '.' ∨ c = ' ' then '_' else c.toUpper)

/-- How the variables of a provider start. -/
def envStart (provider : String) : String := envLead ++ envName provider ++ "_"

/-- The name whose start matches a variable, with what follows; the longest start wins, and of
equally long ones the last. -/
def envMatch? (names : List String) (varName : String) : Option (String × List Char) :=
  names.foldl (fun best name =>
    match Text.after? (envStart name).toList varName.toList, best with
    | none, _ => best
    | some rest, none => some (name, rest)
    | some rest, some (_, shorter) =>
      if rest.length ≤ shorter.length then some (name, rest) else best) none

/-- Overlays one environment variable, if it belongs to a provider and names a setting. -/
def withVariable (names : List String) (r : Resolver) (var : String × String) : Resolver :=
  match envMatch? names var.1 with
  | some (name, c :: cs) =>
    r.withStatic name [(Text.asciiLower (.ofList (c :: cs)), .text var.2)]
  | _ => r

def withEnv (names : List String) (vars : List (String × String)) (r : Resolver) : Resolver :=
  vars.foldl (withVariable names) r

/-- Attaches a store with what it holds. -/
def withSaved (saved : SavedSettings) (r : Resolver) : Resolver := { r with saved := some saved }

/-- The saved layer of a provider, if there is one. -/
def savedFor? (provider : String) (r : Resolver) : Option Record :=
  r.saved.bind (Fields.get? provider)

/-- All layers over the given defaults. -/
def resolve (provider : String) (defaults : Record) (r : Resolver) : Record :=
  Fields.merge (Fields.merge defaults (r.staticFor provider)) ((r.savedFor? provider).getD [])

/-- Whether anything beyond defaults is set. -/
def hasExplicit (provider : String) (r : Resolver) : Bool :=
  !(r.staticFor provider).isEmpty || !((r.savedFor? provider).getD []).isEmpty

/-- Whether an updated setting is a mask that stands for the secret. -/
def isMasked (schema : Schema) (name : String) (value : Value) : Bool :=
  schema.secrets.contains name && value.text? == some mask

/-- Saved settings after an update; masked secrets stay as they were. -/
def updated (schema : Schema) (saved update : Record) : Record :=
  Fields.merge saved (update.filter fun (name, value) => !isMasked schema name value)

/-- Loads the saved layer of a provider, updates it and puts it back, and answers what is saved
then. -/
def save (provider : String) (update : Record) (schema : Schema) (r : Resolver) :
    Except ProviderError Record × Resolver :=
  match r.saved with
  | none => (.error (.config "no configuration store attached"), r)
  | some saved =>
    let settings := updated schema (SavedSettings.load provider saved) update
    (.ok settings, { r with saved := some (SavedSettings.replace provider settings saved) })

end Resolver

/-- Settings for display, with a mask for each secret that is set. -/
def maskSecrets (settings : Record) (schema : Schema) : Record :=
  settings.map fun (name, value) =>
    (name, if schema.secrets.contains name && !value.isNull then .text mask else value)

end TrieFeed
