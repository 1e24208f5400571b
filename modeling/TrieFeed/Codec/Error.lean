/-!
# Codec errors

What can go wrong between values, texts and bytes. Each kind has one reason text, which the module
that finds the fault words.
-/
namespace TrieFeed

inductive CodecError where
  | unsupportedValue (reason : String)
  | invalidHex (reason : String)
  | invalidAddress (reason : String)
  | bech32 (reason : String)
  | invalidPlutusData (reason : String)
deriving DecidableEq, Inhabited

def CodecError.message : CodecError → String
  | .unsupportedValue reason => s!"unsupported value type: {reason}"
  | .invalidHex reason => s!"invalid hex string: {reason}"
  | .invalidAddress reason => s!"invalid address: {reason}"
  | .bech32 reason => s!"bech32 error: {reason}"
  | .invalidPlutusData reason => s!"invalid plutus data: {reason}"

end TrieFeed
