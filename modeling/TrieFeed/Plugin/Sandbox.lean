import TrieFeed.Json.Shape
/-!
# Sandbox settings

What a provider script declares to need. Network access is enforced; the statement budget is only
recorded.
-/
namespace TrieFeed

structure Sandbox where
  allowFiles : Bool
  allowNetwork : Bool
  maxStatements : Nat
deriving DecidableEq

namespace Sandbox

def default : Sandbox := ⟨false, true, 10000000⟩

instance : Inhabited Sandbox := ⟨default⟩

def toJson (s : Sandbox) : Json :=
  .object [("allowIO", .bool s.allowFiles), ("allowNetwork", .bool s.allowNetwork),
    ("maxStatements", .int s.maxStatements)]

def ofJson? (json : Json) : Option Sandbox :=
  match json.record?
    [⟨["allowIO", "allowIo"], true⟩, .optional "allowNetwork", .optional "maxStatements"] with
  | some [allowFiles, allowNetwork, maxStatements] => do
    return {
      allowFiles := ← Json.defaulted? default.allowFiles Json.bool? allowFiles
      allowNetwork := ← Json.defaulted? default.allowNetwork Json.bool? allowNetwork
      maxStatements := ← Json.defaulted? default.maxStatements (Json.word? 64) maxStatements }
  | _ => none

end Sandbox

end TrieFeed
