/-!
# Capabilities

What scripts can reach outside themselves: eight objects with methods, some under a second name.
-/
namespace TrieFeed

inductive Capability where
  | log
  | hex
  | codec
  | chainAddress
  | relationalQuery
  | httpClient
  | sandboxedFile
  | plutusBuilder
deriving DecidableEq, Inhabited

namespace Capability

def name : Capability → String
  | log => "log"
  | hex => "hex"
  | codec => "codec"
  | chainAddress => "chainAddress"
  | relationalQuery => "relationalQuery"
  | httpClient => "httpClient"
  | sandboxedFile => "sandboxedFile"
  | plutusBuilder => "plutusBuilder"

def alias? : Capability → Option String
  | log | hex => none
  | codec => some "cbor"
  | chainAddress => some "cardano"
  | relationalQuery => some "db"
  | httpClient => some "http"
  | sandboxedFile => some "file"
  | plutusBuilder => some "plutus"

def methods : Capability → List String
  | log => ["debug", "info", "warn", "error"]
  | hex => ["decode", "encode", "isValidHex"]
  | codec => ["encode", "encodeConstr", "encodeList", "encodeMap"]
  | chainAddress =>
    ["stakeAddressToCredentialHash", "stakeAddressToCredentialHashHex", "poolIdToKeyHash",
      "poolIdToKeyHashHex", "addressToBytes", "addressToHex", "paymentCredentialHash",
      "paymentCredentialHashHex", "bytesToBech32", "bech32ToBytes"]
  | relationalQuery =>
    ["createPool", "query", "queryScalar", "execute", "closePool", "testConnection"]
  | httpClient => ["get", "post", "put", "delete"]
  | sandboxedFile => ["readText", "readJson", "readCsv", "readLines", "readBytes", "exists"]
  | plutusBuilder => ["constr", "list", "bigInt", "bytes"]

def all : List Capability :=
  [log, hex, codec, chainAddress, relationalQuery, httpClient, sandboxedFile, plutusBuilder]

/-- The names of the object. -/
def bindings (c : Capability) : List String := c.name :: c.alias?.toList

def find? (object : String) : Option Capability := all.find? (·.bindings.contains object)

/-- Whether byte-like maps among the arguments stand for bytes. -/
def takesBytes : Capability → Bool
  | codec | chainAddress | relationalQuery | hex | plutusBuilder => true
  | log | httpClient | sandboxedFile => false

end Capability

end TrieFeed
