import TrieFeed.Provider.Error
/-!
# Plugin errors

What scripted providers, and what loads, schedules and watches them, can fail with. At the provider
contract these errors become provider errors; kinds that the contract lacks become internal ones.
-/
namespace TrieFeed

inductive PluginError where
  | scriptLoad (provider reason : String)
  | entryPointMissing (provider entryPoint : String)
  | script (provider entryPoint reason : String)
  | unsupported (provider operation : String)
  | contextClosed (provider : String)
  | notInitialized (provider : String)
  | unsupportedValue (reason : String)
  | securityViolation (reason : String)
  | capability (name reason : String)
  | manifest (path reason : String)
  | schedule (reason : String)
  | watch (reason : String)
  | contract (error : ProviderError)
  | file (reason : String)
  | document (reason : String)
deriving DecidableEq, Inhabited

namespace PluginError

def message : PluginError → String
  | scriptLoad provider reason => s!"failed to load script for `{provider}`: {reason}"
  | entryPointMissing provider entryPoint =>
    s!"provider `{provider}` does not define required entry point `{entryPoint}`"
  | script provider entryPoint reason => s!"`{entryPoint}` failed in `{provider}`: {reason}"
  | unsupported provider operation => s!"provider `{provider}` does not support `{operation}`"
  | contextClosed provider => s!"execution context for `{provider}` is closed"
  | notInitialized provider => s!"provider `{provider}` is not initialized; configure it first"
  | unsupportedValue reason => s!"unsupported value type: {reason}"
  | securityViolation reason => s!"security violation: {reason}"
  | capability name reason => s!"{name} capability failed: {reason}"
  | manifest path reason => s!"invalid manifest {path}: {reason}"
  | schedule reason => s!"schedule error: {reason}"
  | watch reason => s!"watch error: {reason}"
  | contract error => error.message
  | file reason => s!"io error: {reason}"
  | document reason => s!"json error: {reason}"

/-- Codec errors keep their kind where plugins have it, and else are the codec capability's. -/
def ofCodec : CodecError → PluginError
  | .unsupportedValue reason => unsupportedValue reason
  | error => capability "codec" error.message

/-- The error at the provider contract. -/
def toProviderError : PluginError → ProviderError
  | entryPointMissing provider entryPoint => .entryPointMissing provider entryPoint
  | unsupported provider operation => .unsupported provider operation
  | script provider entryPoint reason => .script provider s!"{entryPoint}: {reason}"
  | scriptLoad provider reason => .script provider reason
  | unsupportedValue reason => .unsupportedValue reason
  | securityViolation reason => .securityViolation reason
  | capability name reason => .capability name reason
  | notInitialized provider => .notInitialized provider
  | contract error => error
  | error => .internal error.message

end PluginError

end TrieFeed
