import TrieFeed.Capability.Basic
import TrieFeed.Capability.Codecs
import TrieFeed.Capability.Files
import TrieFeed.Capability.Http
import TrieFeed.Capability.Queries
import TrieFeed.Plugin.Sandbox
/-!
# Capability sets

The capabilities that one execution context binds. A call names an object and a method, and the set
answers it. The last failure that a script was told of is kept, so that it can be recognised when it
comes out of the script again.
-/
namespace TrieFeed

structure Capabilities where
  provider : String
  sandbox : Sandbox
  /-- Whether requests and queries can be waited for. -/
  canWait : Bool
  file : SandboxedFile
  pools : Sql.Pools
  lastFailure : Option PluginError
deriving Inhabited

namespace Capabilities

/-- The set of a provider in a directory, which has to exist. -/
def create (provider : String) (directory : Path) (sandbox : Sandbox) (canWait : Bool)
    (files : FileTree) : Except PluginError Capabilities :=
  (SandboxedFile.ofDirectory files directory).map fun file =>
    ⟨provider, sandbox, canWait, file, [], none⟩

/-- The text of a message: texts as they are and other values as documents. -/
def messageText : Option Value → String
  | none => ""
  | some (.text s) => s
  | some v => v.toJson.compact

def levelOf (method : String) : LogLevel :=
  match method with
  | "debug" => .debug
  | "info" => .info
  | "warn" => .warn
  | _ => .error

/-- Encoding an empty map is worth a warning. -/
def warned (method : String) (args : Arguments) (h : Host) : Host :=
  match method, Capability.encodedItem args with
  | "encode", .ok (.map []) => h.write .warn "codec" "empty map"
  | _, _ => h

def noRuntime : PluginError :=
  .capability "runtime" "no async runtime available for this capability"

/-- Answers a call of a capability's method. -/
def call (c : Capabilities) (capability : Capability) (method : String) (args : Arguments)
    (h : Host) : Except PluginError Value × Capabilities × Host :=
  match capability with
  | .log => (.ok .null, c, h.write (levelOf method) c.provider (messageText (args.get? 0)))
  | .hex => (Capability.callHex method args, c, h)
  | .codec => (Capability.callCodec method args, c, warned method args h)
  | .chainAddress => (Capability.callAddress method args, c, h)
  | .plutusBuilder => (Capability.callPlutus method args, c, h)
  | .sandboxedFile => (c.file.call h.files method args, c, h)
  | .httpClient =>
    if c.canWait then (Http.call c.sandbox.allowNetwork method args, c, h)
    else (.error noRuntime, c, h)
  | .relationalQuery =>
    if c.canWait then
      let (result, pools, h) := (Sql.Session.call method args).run (c.pools, h)
      (result, { c with pools }, h)
    else (.error noRuntime, c, h)

/-- Answers a call by names. -/
def invoke (c : Capabilities) (object method : String) (values : List Value) (h : Host) :
    Except PluginError Value × Capabilities × Host :=
  match Capability.find? object with
  | none => (.error (.capability object s!"unknown capability `{object}`"), c, h)
  | some capability =>
    if capability.methods.contains method then
      let values := if capability.takesBytes then values.map Value.detectBytes else values
      c.call capability method ⟨capability.name, method, values⟩ h
    else (.error (.capability capability.name s!"unknown method `{method}`"), c, h)

/-- Answers a script's call, which learns only the message of a failure. -/
def invokeFromScript (c : Capabilities) (object method : String) (values : List Value) (h : Host) :
    Except String Value × Capabilities × Host :=
  match c.invoke object method values h with
  | (.ok v, c, h) => (.ok v, c, h)
  | (.error e, c, h) => (.error e.message, { c with lastFailure := some e }, h)

def clearFailure (c : Capabilities) : Capabilities := { c with lastFailure := none }

/-- The kept failure, if a script's message holds its own; it is forgotten either way. -/
def takeFailure (c : Capabilities) (message : String) : Option PluginError × Capabilities :=
  (c.lastFailure.filter fun e => Text.contains message e.message, c.clearFailure)

/-- Closes the pools. -/
def close (c : Capabilities) : Capabilities :=
  if c.canWait then { c with pools := c.pools.closeAll } else c

end Capabilities

end TrieFeed
