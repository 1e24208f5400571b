import TrieFeed.Plugin.Manifest
import TrieFeed.Script.Module
import TrieFeed.Script.Reader
/-!
# Engines

An engine runs one script with one set of capabilities. Errors of a script are errors of its entry
point, unless a capability failed and the script let that failure through: then the failure is the
error.
-/
namespace TrieFeed.Script

structure Engine where
  capabilities : Capabilities
  module : Option Module
  closed : Bool
deriving Inhabited

namespace Engine

def provider (e : Engine) : String := e.capabilities.provider

/-- An engine for a language; only one language is built in. -/
def create (language : Language) (capabilities : Capabilities) : Except PluginError Engine :=
  match language with
  | .javascript => .ok ⟨capabilities, none, false⟩
  | .python =>
    .error (.scriptLoad capabilities.provider s!"{language.name} support is not compiled in")

/-- Work on an engine and the host. -/
abbrev Step (α : Type) := Engine → Host → Except PluginError α × Engine × Host

def runWith {α : Type} (e : Engine) (h : Host) (state : Datum) (run : Run α) :
    Except Stop α × Engine × Host × Datum :=
  match run.run ⟨e.capabilities, h, state⟩ with
  | (result, m) => (result, { e with capabilities := m.capabilities }, m.host, m.state)

/-- Loads a script in place of the one before, which stays if this one does not load. -/
def load (source fileName : String) : Step Unit := fun e h =>
  let failure (reason : String) : PluginError := .scriptLoad e.provider s!"{fileName}: {reason}"
  if e.closed then (.error (.contextClosed e.provider), e, h)
  else
    match Program.read? source with
    | none => (.error (failure "not a script\n"), e, h)
    | some script =>
      match e.runWith h .undefined (Module.load script) with
      | (.ok m, e, h, _) => (.ok (), { e with module := some m }, h)
      | (.error stop, e, h, _) => (.error (failure stop.message), e, h)

def hasEntryPoint (e : Engine) (name : String) : Bool := e.module.any (·.isEntryPoint name)

def entryPoints (e : Engine) : List String := (e.module.map Module.entryPoints).getD []

/-- The error of an entry point that stopped. -/
def failureOf (name : String) (stop : Stop) (e : Engine) : PluginError × Engine :=
  match e.capabilities.takeFailure stop.message with
  | (some failure, c) => (failure, { e with capabilities := c })
  | (none, c) => (.script e.provider name stop.message, { e with capabilities := c })

/-- Calls an entry point and waits for what it yields. -/
def call (name : String) (args : List Value) : Step Value := fun e h =>
  match e.module with
  | none => (.error (.entryPointMissing e.provider name), e, h)
  | some m =>
    let e := { e with capabilities := e.capabilities.clearFailure }
    match (Fields.get? name m.exports).filter Export.isFunction with
    | none => (.error (.entryPointMissing e.provider name), e, h)
    | some function =>
      match e.runWith h m.state (m.callExport function (args.map datumOf)) with
      | (result, e, h, state) =>
        let e := { e with module := some { m with state } }
        match result with
        | .ok d => ((valueOf d).mapError fun fault => .unsupportedValue fault.message, e, h)
        | .error stop =>
          match failureOf name stop e with
          | (failure, e) => (.error failure, e, h)

def close (e : Engine) : Engine := { e with module := none, closed := true }

end Engine

end TrieFeed.Script
