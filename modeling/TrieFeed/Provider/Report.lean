import TrieFeed.Json.Shape
import TrieFeed.Provider.Schema
/-!
# What providers report

Verdicts on records and configurations, readiness, and the description shown in listings. Scripts
report verdicts as loose values; what is not recognised counts as a pass.
-/
namespace TrieFeed

/-- The verdict on one record. -/
structure Verdict where
  valid : Bool
  errors : List String
deriving DecidableEq, Inhabited

namespace Verdict

def pass : Verdict := ⟨true, []⟩

def fail (errors : List String) : Verdict := ⟨false, errors⟩

/-- A boolean, or a map with `valid` and `errors`. -/
def ofValue : Value → Verdict
  | .bool valid => ⟨valid, []⟩
  | .map fields =>
    ⟨((Fields.get? "valid" fields).bind Value.toBool?).getD true,
      (((Fields.get? "errors" fields).bind Value.list?).getD []).filterMap Schema.textOf?⟩
  | _ => pass

def ofJson? (json : Json) : Option Verdict :=
  match json.record? [.plain "valid", .optional "errors"] with
  | some [valid, errors] => do
    return ⟨← Json.required? Json.bool? valid,
      ← Json.defaulted? [] (Json.listOf? Json.text?) errors⟩
  | _ => none

end Verdict

/-- The outcome of trying a configuration. -/
structure Trial where
  success : Bool
  note : String
deriving DecidableEq, Inhabited

namespace Trial

def pass : Trial := ⟨true, "OK"⟩

/-- A boolean, or a map with `success` and `message`. -/
def ofValue : Value → Trial
  | .bool true => pass
  | .bool false => ⟨false, "configuration test failed"⟩
  | .map fields =>
    let success := ((Fields.get? "success" fields).bind Value.toBool?).getD false
    ⟨success, (Schema.fieldText? "message" fields).getD (if success then "OK" else "failed")⟩
  | _ => pass

end Trial

/-- How ready a provider is. -/
inductive Readiness where
  | available
  | notConfigured
  | error
deriving DecidableEq, Inhabited

namespace Readiness

def label : Readiness → String
  | .available => "available"
  | .notConfigured => "not configured"
  | .error => "error"

def wireName : Readiness → String
  | .available => "AVAILABLE"
  | .notConfigured => "NOT_CONFIGURED"
  | .error => "ERROR"

def ofWireName? (name : String) : Option Readiness :=
  [available, notConfigured, error].find? (·.wireName = name)

end Readiness

/-- What listings show of a provider. -/
structure Metadata where
  name : String
  description : String
  version : String
  author : Option String
  language : String
  dataSource : Option String
  tags : List String
  scheduled : Bool
deriving DecidableEq, Inhabited

namespace Metadata

/-- A provider that tells nothing but its name and description. -/
def plain (name description : String) : Metadata :=
  ⟨name, description, "", none, "", none, [], false⟩

def toJson (m : Metadata) : Json :=
  let optional : Option String → Json := fun
    | some s => .text s
    | none => .null
  .object [("name", .text m.name), ("description", .text m.description),
    ("version", .text m.version), ("author", optional m.author), ("language", .text m.language),
    ("dataSource", optional m.dataSource), ("tags", .list (m.tags.map .text)),
    ("scheduled", .bool m.scheduled)]

end Metadata

end TrieFeed
