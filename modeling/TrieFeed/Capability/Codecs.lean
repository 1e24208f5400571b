import TrieFeed.Capability.Arguments
import TrieFeed.Chain.Address
import TrieFeed.Codec.Hex
import TrieFeed.Codec.Plutus
/-!
# Codec capabilities

Hexadecimal text, data items, plutus data and chain addresses for scripts.
-/
namespace TrieFeed

/-- The entries of a map of items: of fields, or of a list of pairs. -/
def Arguments.entries (args : Arguments) (i : Nat) : Except PluginError (List (Item × Item)) := do
  match ← args.value i with
  | .map fields => fields.mapM fun (name, v) => return (.text name, ← itemOf v)
  | .list pairs => pairs.mapM fun pair =>
    match pair with
    | .list [k, v] => return (← itemOf k, ← itemOf v)
    | _ => throw (args.error "map entries must be [key, value] pairs")
  | v => throw (args.error s!"expected a map, got {v.typeName}")

namespace Capability

def codecResult {α : Type} (r : Except CodecError α) : Except PluginError α :=
  r.mapError .ofCodec

def callHex (method : String) (args : Arguments) : Except PluginError Value := do
  match method with
  | "decode" => return .bytes (← codecResult ((Hex.decode (← args.text 0)).mapError (·.toError)))
  | "encode" => return .text (Hex.encode (← args.bytes 0))
  | _ => return .bool (((args.get? 0).bind Value.text?).any Hex.isValid)

/-- The item that `encode` writes; an absent argument is null. -/
def encodedItem (args : Arguments) : Except PluginError Item :=
  Arguments.itemOf ((args.get? 0).getD .null)

def callCodec (method : String) (args : Arguments) : Except PluginError Value := do
  match method with
  | "encode" => return .bytes (Cbor.encode (← encodedItem args))
  | "encodeConstr" =>
    let alternative ← args.alternative 0
    return .bytes (Cbor.encodeConstr alternative (← args.items 1))
  | "encodeList" => return .bytes (Cbor.encodeList (← args.items 0))
  | _ => return .bytes (Cbor.encodeMap (← args.entries 0))

def plutusResult (r : Except PlutusData.Fault PlutusData) : Except PluginError PlutusData :=
  codecResult (r.mapError (·.toError))

/-- The data that a builder method describes. -/
def plutusData (method : String) (args : Arguments) : Except PluginError PlutusData := do
  match method with
  | "constr" =>
    let alternative ← args.alternative 0
    plutusResult (PlutusData.ofConstr alternative (← args.items 1))
  | "list" => plutusResult (PlutusData.ofItem (.list (← args.items 0)))
  | "bigInt" => return .int (← args.int 0)
  | _ =>
    match ← args.value 0 with
    | .text s => return .bytes (← codecResult ((Hex.decode s).mapError (·.toError)))
    | _ => return .bytes (← args.bytes 0)

def callPlutus (method : String) (args : Arguments) : Except PluginError Value :=
  (plutusData method args).map fun d => .bytes d.toCbor

/-- Bytes of an identifier, as bytes or as hexadecimal text. -/
def addressPart (read : String → Except CodecError Bytes) (asText : Bool) (args : Arguments) :
    Except PluginError Value := do
  let bytes ← codecResult (read (← args.text 0))
  return if asText then .text (Hex.encode bytes) else .bytes bytes

def callAddress (method : String) (args : Arguments) : Except PluginError Value := do
  match method with
  | "bytesToBech32" =>
    let hrp ← args.text 1
    let bytes ← args.bytes 0
    return .text (← codecResult ((Bech32.encode hrp bytes).mapError (·.toError)))
  | "bech32ToBytes" =>
    return .bytes (← codecResult ((Bech32.decode (← args.text 0)).mapError (·.toError))).2
  | "stakeAddressToCredentialHash" => addressPart Address.delegationCredential false args
  | "stakeAddressToCredentialHashHex" => addressPart Address.delegationCredential true args
  | "poolIdToKeyHash" => addressPart Address.poolKeyHash false args
  | "poolIdToKeyHashHex" => addressPart Address.poolKeyHash true args
  | "paymentCredentialHash" => addressPart Address.paymentCredential false args
  | "paymentCredentialHashHex" => addressPart Address.paymentCredential true args
  | "addressToHex" => addressPart Address.toBytes true args
  | _ => addressPart Address.toBytes false args

end Capability

end TrieFeed
