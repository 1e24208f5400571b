import TrieFeed.Script.Eval
/-!
# Loaded scripts

Loading a script binds its entries and finds out what it exports. Of the functions bound to names of
the script only those with well-known names are exported; what the script exports by itself comes
before them.
-/
namespace TrieFeed.Script

namespace EntryPoint

def start : String := "initialize"
def fetch : String := "fetchData"
def key : String := "serializeKey"
def value : String := "serializeValue"
def validate : String := "validate"
def schema : String := "getConfigSchema"
def connectionSchema : String := "getConnectionConfigSchema"
def test : String := "testConfiguration"
def reconfigure : String := "reconfigure"
def keyFromInput : String := "serializeKeyFromInput"
def close : String := "close"

/-- The names that the host knows. -/
def all : List String :=
  [start, fetch, key, value, validate, schema, connectionSchema, test, reconfigure, keyFromInput,
    close]

/-- The names that a provider cannot do without. -/
def required : List String := [fetch, key, value]

end EntryPoint

inductive Export where
  | function (isAsync : Bool) (body : Expr)
  | datum (d : Datum)
deriving Inhabited

namespace Export

def kind : Export → String
  | .function _ _ => "function"
  | .datum d => d.kind

def isFunction (e : Export) : Bool := e.kind == "function"

end Export

/-- A script that has been loaded, as it is now. -/
structure Module where
  exports : Fields Export
  state : Datum
deriving Inhabited

namespace Module

def isEntryPoint (m : Module) (name : String) : Bool :=
  (Fields.get? name m.exports).any Export.isFunction

def entryPoints (m : Module) : List String := EntryPoint.all.filter m.isEntryPoint

/-- The bindings of a script while it is loaded. -/
structure Bindings where
  names : Fields Export
  exports : Fields Export
  /-- Whether the exports are no longer those of the start. -/
  replaced : Bool

/-- Functions are bound before anything else happens, and later ones replace earlier ones. -/
def hoisted (s : Program) : Fields Export :=
  s.entries.foldl (fun names e =>
    match e.binding with
    | .function => Fields.insert e.name (.function false e.body) names
    | .asyncFunction => Fields.insert e.name (.function true e.body) names
    | _ => names) []

def loadScope : Scope := ⟨[], none, .undefined, []⟩

def bindEntry (b : Bindings) (e : Entry) : Run Bindings := do
  let function : Export := .function false e.body
  match e.binding with
  | .function | .asyncFunction => return b
  | .constant => return { b with names := Fields.insert e.name function b.names }
  | .exported => return { b with exports := Fields.insert e.name function b.exports }
  | .aliased =>
    return if b.replaced then b else { b with exports := Fields.insert e.name function b.exports }
  | .replacing => return { b with exports := [(e.name, function)], replaced := true }
  | .datum =>
    let d ← eval loadScope e.body
    return { b with exports := [(e.name, .datum d)], replaced := true }
  | .assigned =>
    let d ← eval loadScope e.body
    return { b with names := Fields.insert e.name (.datum d) b.names }
  | .statement =>
    let _ ← eval loadScope e.body
    return b

/-- The well-known functions among the names, and then the exports. -/
def Bindings.captured (b : Bindings) : Fields Export :=
  Fields.merge (b.names.filter fun n => EntryPoint.all.contains n.1 && n.2.isFunction) b.exports

/-- Loads a script, from which on the machine's state is that of the script. -/
def load (s : Program) : Run Module := do
  setState s.start
  let bindings ← s.entries.foldlM bindEntry ⟨hoisted s, [], false⟩
  return ⟨bindings.captured, (← get).state⟩

/-- Calls a function with arguments and waits for its outcome. -/
def callExport (m : Module) (e : Export) (args : List Datum) : Run Datum := do
  let scope : Scope := ⟨args, none, .undefined, m.exports.map fun (name, e) => (name, e.kind)⟩
  match e with
  | .function isAsync body =>
    let d ← eval scope body
    if isAsync then awaited d else outcome d
  | .datum .newable => throw (.thrown (.error "class constructors must be invoked with 'new'"))
  | .datum _ => return .undefined

end Module

end TrieFeed.Script
