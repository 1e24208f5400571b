import TrieFeed.Json.Shape
import TrieFeed.Value.Json
/-!
# Schedule plans

What a provider declares about its recurring ingestion: when it fires, what it is called, and where
its records go.
-/
namespace TrieFeed.Schedule

structure Plan where
  enabled : Bool
  cron : Option String
  interval : Option String
  description : Option String
  /-- The pattern of the target's name. -/
  target : Option String
  createsTarget : Bool
  settings : List (String × Json)
deriving Inhabited

namespace Plan

/-- A plan that declares nothing. -/
def blank : Plan := ⟨false, none, none, none, none, false, []⟩

/-- The settings of each run, as values. -/
def config (p : Plan) : Record := Value.fieldsOfJson p.settings

def slots : List Json.Slot :=
  [.optional "enabled", .optional "cron", .optional "interval", .optional "description",
    ⟨["targetIdentifier", "targetMerkle"], true⟩, ⟨["autoCreateTarget", "autoCreateMerkle"], true⟩,
    .optional "defaultConfig"]

/-- The fields of an object, each under its last value. -/
def settings? : Json → Option (List (String × Json))
  | .object fields => match (Json.object fields).settled with
    | .object fields => some fields
    | _ => none
  | _ => none

def ofJson? (json : Json) : Option Plan :=
  match json.record? slots with
  | some [enabled, cron, interval, description, target, createsTarget, settings] => do
    return {
      enabled := ← Json.defaulted? false Json.bool? enabled
      cron := ← Json.absentable? Json.text? cron
      interval := ← Json.absentable? Json.text? interval
      description := ← Json.absentable? Json.text? description
      target := ← Json.absentable? Json.text? target
      createsTarget := ← Json.defaulted? false Json.bool? createsTarget
      settings := ← Json.defaulted? [] settings? settings }
  | _ => none

/-- Absent texts are written as null. -/
def optionalText : Option String → Json
  | some s => .text s
  | none => .null

def toJson (p : Plan) : Json :=
  .object [("enabled", .bool p.enabled), ("cron", optionalText p.cron),
    ("interval", optionalText p.interval), ("description", optionalText p.description),
    ("targetIdentifier", optionalText p.target), ("autoCreateTarget", .bool p.createsTarget),
    ("defaultConfig", .object p.settings)]

end Plan

end TrieFeed.Schedule
