import TrieFeed.Capability.Set
import TrieFeed.Script.Crossing
import TrieFeed.Script.Expr
/-!
# Evaluation

An expression yields a datum, throws one, or waits for what never comes. Whatever it did to the host
before that has happened.
-/
namespace TrieFeed.Script

/-- What evaluation acts on. -/
structure Machine where
  capabilities : Capabilities
  host : Host
  state : Datum

/-- Why evaluation yields nothing. -/
inductive Stop where
  | thrown (d : Datum)
  | stuck
deriving Inhabited

abbrev Run := ExceptT Stop (StateM Machine)

/-- What an expression sees: the arguments, the caught datum and the item at hand, and the kinds of
what the script exports. -/
structure Scope where
  arguments : List Datum
  caught : Option Datum
  item : Datum
  kinds : Fields String

def throwFault {α : Type} (fault : Datum.Fault) : Run α := throw (.thrown (.error fault.message))

def orThrow {α : Type} (r : Except Datum.Fault α) : Run α :=
  match r with
  | .ok a => pure a
  | .error fault => throwFault fault

def crossing (d : Datum) : Run Value :=
  match valueOf d with
  | .ok v => pure v
  | .error fault => throw (.thrown (.error (PluginError.unsupportedValue fault.message).message))

/-- Calls the host; a failure is thrown as an error with its message. -/
def callHost (object method : String) (args : List Datum) : Run Datum := do
  let values ← args.mapM crossing
  let m ← get
  let (result, capabilities, host) := m.capabilities.invokeFromScript object method values m.host
  set { m with capabilities, host }
  match result with
  | .ok v => return datumOf v
  | .error message => throw (.thrown (.error message))

/-- The method of the log behind each method of the console. -/
def consoleMethod? (method : String) : Option String :=
  match method with
  | "log" => some "info"
  | "info" | "debug" | "warn" | "error" => some method
  | _ => none

/-- The method that a name of an object and one of a method stand for. -/
def methodOf (object method : String) : Except Datum.Fault (String × String) :=
  if object = "console" then
    match consoleMethod? method with
    | some m => .ok ("log", m)
    | none => .error .notCallable
  else
    match Capability.find? object with
    | none => .error (.notDefined object)
    | some c => if c.methods.contains method then .ok (c.name, method) else .error .notCallable

/-- Reading anything of nothing fails. -/
def checkReadable (d : Datum) : Run Unit :=
  match d with
  | .undefined | .gap => throwFault (.noProperty "undefined")
  | .null => throwFault (.noProperty "null")
  | _ => pure ()

/-- What calling a datum's `then` method leads to, if it has one. -/
def follow? (d : Datum) : Option Datum :=
  match d with
  | .record _ _ =>
    match d.get "then" with
    | .function => some .pending
    | .newable => some (.failed (.error "class constructors must be invoked with 'new'"))
    | _ => none
  | _ => none

/-- The outcome of a promise; other data are their own outcome. -/
def outcome (d : Datum) : Run Datum :=
  match d with
  | .settled d => pure d
  | .failed reason => throw (.thrown reason)
  | .pending => throw .stuck
  | d => pure d

/-- The outcome of waiting for a datum, which also follows its `then` method. -/
def awaited (d : Datum) : Run Datum := outcome ((follow? d).getD d)

/-- A promise of a datum; a promise is its own promise. -/
def promise (d : Datum) : Datum :=
  match d with
  | .settled _ | .failed _ | .pending => d
  | _ => (follow? d).getD (.settled d)

def setState (d : Datum) : Run Unit := modify fun m => { m with state := d }

mutual

def eval (s : Scope) : Expr → Run Datum
  | .literal d => pure d
  | .argument i => pure (s.arguments.getD i .undefined)
  | .argumentCount => pure (.ofInt s.arguments.length)
  | .field e name => do
    let d ← eval s e
    checkReadable d
    return d.get name
  | .call object method args => do
    match methodOf object method with
    | .error (.notDefined name) => throwFault (.notDefined name)
    | .error fault => do
      let _ ← evalAll s args
      throwFault fault
    | .ok (object, method) => callHost object method (← evalAll s args)
  | .dispatch object method args => do callHost object method (← evalAll s args)
  | .raise message => throw (.thrown (.error message))
  | .raiseDatum d => throw (.thrown d)
  | .list items => do return .list (← evalAll s items)
  | .record fields => do return .record (Fields.ofPairs (← evalFields s fields)) []
  | .attempt body handler =>
    tryCatch (eval s body) fun stop =>
      match stop with
      | .thrown d => eval { s with caught := some d } handler
      | .stuck => throw .stuck
  | .caughtMessage =>
    match s.caught with
    | some d => do
      checkReadable d
      return d.get "message"
    | none => throwFault (.notDefined "error")
  | .raiseCaught =>
    match s.caught with
    | some d => throw (.thrown d)
    | none => throwFault (.notDefined "error")
  | .kindOf e => do return .text (← eval s e).kind
  | .state => do return (← get).state
  | .setState e => do
    let d ← eval s e
    setState d
    return d
  | .add a b => do
    let x ← eval s a
    let y ← eval s b
    orThrow (x.add y)
  | .greater a b => do
    let x ← eval s a
    let y ← eval s b
    return .bool (← orThrow (x.greater y))
  | .choose condition yes no => do
    if (← eval s condition).truth then eval s yes else eval s no
  | .sequence es => do return (← evalAll s es).getLast?.getD .undefined
  | .forEach e body => do
    let d ← eval s e
    checkReadable d
    match d with
    | .list items =>
      return .list (← items.mapM fun d =>
        match d with
        | .gap => pure .gap
        | d => eval { s with item := d } body)
    | .bytes b =>
      return .bytes (← b.mapM fun n => do
        orThrow (← eval { s with item := .ofInt n.toNat } body).toByte)
    | _ => throwFault .notCallable
  | .item => pure s.item
  | .size e => do
    let d ← eval s e
    checkReadable d
    return d.get "length"
  | .document e => do
    match ← orThrow (← eval s e).document with
    | some text => return .text text
    | none => return .undefined
  | .settled e => do return promise (← eval s e)
  | .failed message => pure (.failed (.error message))
  | .pending => pure .pending
  | .wait e => do awaited (← eval s e)
  | .ownKind name => pure (.text ((Fields.get? name s.kinds).getD "undefined"))

def evalAll (s : Scope) : List Expr → Run (List Datum)
  | [] => pure []
  | e :: rest => do
    let d ← eval s e
    return d :: (← evalAll s rest)

def evalFields (s : Scope) : List (String × Expr) → Run (List (String × Datum))
  | [] => pure []
  | (name, e) :: rest => do
    let d ← eval s e
    return (name, d) :: (← evalFields s rest)

end

/-- How a stop reads to the host. What was thrown stands on a line that is ended. -/
def Stop.message : Stop → String
  | .thrown (.error message) => s!"Error: {message}\n"
  | .thrown d => s!"Exception generated by quickjs: {d.text?.getD d.kind}\n"
  | .stuck => "Error blocking on a promise resulted in a dead lock"

end TrieFeed.Script
