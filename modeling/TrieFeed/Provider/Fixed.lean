import TrieFeed.Provider.Basic
/-!
# Providers with fixed records

A provider that always fetches the same records, which carry their own keys, values and verdicts.
It stands in for a live source.
-/
namespace TrieFeed

/-- What fetching does. -/
inductive Fetching where
  | records (records : List Record)
  | fails (reason : String)
  | crashes
deriving Inhabited

structure FixedSource where
  name : String
  description : String
  fetching : Fetching
deriving Inhabited

namespace FixedSource

/-- Bytes are the answer and text is a failure. -/
def bytesUnder (name missing : String) (record : Record) : Except ProviderError Bytes :=
  match Fields.get? name record with
  | some (.bytes b) => .ok b
  | some (.text s) => .error (.internal s)
  | _ => .error (.script "native" missing)

/-- A record without a verdict passes, and a text instead of one is a failure. -/
def verdictOf (record : Record) : Except ProviderError Verdict :=
  match Fields.get? "valid" record with
  | none => .ok .pass
  | some (.text s) => .error (.capability "test" s)
  | some value => .ok (.ofValue value)

/-- At most as many records as the `limit` of the settings says. -/
def limited (config : Record) (records : List Record) : List Record :=
  match (Fields.get? "limit" config).bind Value.toInt64? with
  | some n => records.take n.toNat
  | none => records

def fetchWith (fetching : Fetching) (config : Record) : Except ProviderError (List Record) :=
  match fetching with
  | .records records => .ok (limited config records)
  | .fails reason => .error (.internal reason)
  | .crashes => .error (.crashed "fetch")

/-- The provider, over any state, which it leaves alone. -/
def provider {σ : Type} (source : FixedSource) : Provider σ where
  name := source.name
  description := source.description
  start _ := Action.succeed ()
  fetch config s := (fetchWith source.fetching config, s)
  key record s := (bytesUnder "key" "no key" record, s)
  value record s := (bytesUnder "value" "no value" record, s)
  validate record s := (verdictOf record, s)

end FixedSource

end TrieFeed
