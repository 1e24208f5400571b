import TrieFeed.Codec.Error
/-!
# Provider errors

What a data provider can fail with, whatever it is made of.
-/
namespace TrieFeed

inductive ProviderError where
  | entryPointMissing (provider entryPoint : String)
  | unsupported (provider operation : String)
  | unsupportedValue (reason : String)
  | script (provider reason : String)
  | securityViolation (reason : String)
  | capability (name reason : String)
  | notFound (provider : String)
  | notInitialized (provider : String)
  | config (reason : String)
  | ingestion (target reason : String)
  | internal (reason : String)
  /-- The provider stopped without an answer. -/
  | crashed (reason : String)
deriving DecidableEq, Inhabited

namespace ProviderError

def message : ProviderError → String
  | entryPointMissing provider entryPoint =>
    s!"provider `{provider}` does not define required entry point `{entryPoint}`"
  | unsupported provider operation => s!"provider `{provider}` does not support `{operation}`"
  | unsupportedValue reason => s!"unsupported value type: {reason}"
  | script provider reason => s!"script error in `{provider}`: {reason}"
  | securityViolation reason => s!"security violation: {reason}"
  | capability name reason => s!"{name} capability failed: {reason}"
  | notFound provider => s!"provider not found: {provider}"
  | notInitialized provider => s!"provider `{provider}` is not initialized; configure it first"
  | config reason => s!"configuration error: {reason}"
  | ingestion target reason => s!"ingestion into `{target}` failed: {reason}"
  | internal reason => s!"internal provider error: {reason}"
  | crashed reason => s!"provider crashed: {reason}"

/-- Codec errors keep their kind where providers have it, and else are the codec capability's. -/
def ofCodec : CodecError → ProviderError
  | .unsupportedValue reason => unsupportedValue reason
  | error => capability "codec" error.message

end ProviderError

end TrieFeed
