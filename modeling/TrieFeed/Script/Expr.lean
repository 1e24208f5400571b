import TrieFeed.Script.Datum
/-!
# Expressions

What the entries of a script compute. An entry is bound in one of several ways, on which it depends
whether the host can call it.
-/
namespace TrieFeed.Script

inductive Expr where
  | literal (d : Datum)
  | argument (i : Nat)
  | argumentCount
  | field (e : Expr) (name : String)
  /-- A method of a capability or of the console. -/
  | call (object method : String) (args : List Expr)
  /-- A method of a capability, by the host's own entry. -/
  | dispatch (object method : String) (args : List Expr)
  | raise (message : String)
  | raiseDatum (d : Datum)
  | list (items : List Expr)
  | record (fields : List (String × Expr))
  /-- Goes on with the handler if the body throws. -/
  | attempt (body handler : Expr)
  | caughtMessage
  | raiseCaught
  | kindOf (e : Expr)
  | state
  | setState (e : Expr)
  | add (a b : Expr)
  | greater (a b : Expr)
  | choose (condition yes no : Expr)
  | sequence (es : List Expr)
  | forEach (e body : Expr)
  | item
  | size (e : Expr)
  | document (e : Expr)
  | settled (e : Expr)
  | failed (message : String)
  | pending
  | wait (e : Expr)
  | ownKind (name : String)
deriving Inhabited

/-- How an entry is bound. -/
inductive Binding where
  /-- A function of the script, whatever its place. -/
  | function
  | asyncFunction
  | constant
  /-- A function put into what the script exports at that point. -/
  | exported
  /-- A function put into what the script exported at first. -/
  | aliased
  /-- A function that becomes all that the script exports. -/
  | replacing
  /-- A datum of the script, computed when it is loaded. -/
  | assigned
  /-- A datum that becomes all that the script exports. -/
  | datum
  /-- Computed when the script is loaded and then forgotten. -/
  | statement
deriving DecidableEq, Inhabited

structure Entry where
  name : String
  body : Expr
  binding : Binding
deriving Inhabited

/-- A script: what its state starts as, and its entries in order. -/
structure Program where
  start : Datum
  entries : List Entry
deriving Inhabited

mutual

/-- Whether an expression waits, which only asynchronous functions may do. -/
def Expr.waits : Expr → Bool
  | .wait _ => true
  | .field e _ | .kindOf e | .setState e | .size e | .document e | .settled e => e.waits
  | .call _ _ es | .dispatch _ _ es | .list es | .sequence es => anyWaits es
  | .record fields => anyFieldWaits fields
  | .attempt a b | .add a b | .greater a b | .forEach a b => a.waits || b.waits
  | .choose a b c => a.waits || b.waits || c.waits
  | .literal _ | .argument _ | .argumentCount | .raise _ | .raiseDatum _ | .caughtMessage
  | .raiseCaught | .state | .item | .failed _ | .pending | .ownKind _ => false

def anyWaits : List Expr → Bool
  | [] => false
  | e :: rest => e.waits || anyWaits rest

def anyFieldWaits : List (String × Expr) → Bool
  | [] => false
  | (_, e) :: rest => e.waits || anyFieldWaits rest

end

namespace Program

/-- Only asynchronous functions wait, and a constant shares its name with nothing. -/
def isWellFormed (s : Program) : Bool :=
  s.entries.all (fun e => e.binding = .asyncFunction || !e.body.waits) &&
    s.entries.all fun e => e.binding ≠ .constant ||
      (s.entries.filter fun f => f.name = e.name &&
        [.function, .asyncFunction, .constant, .assigned].contains f.binding).length = 1

end Program

end TrieFeed.Script
