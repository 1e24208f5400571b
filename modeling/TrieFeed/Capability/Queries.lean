import TrieFeed.Capability.Arguments
import TrieFeed.Capability.Host
/-!
# Queries

Scripts open pools of connections to databases in files or to a server, and name a pool by its
handle in every later call. Pools belong to the set of capabilities that opened them, and the handle
of one that was closed is not given to another.
-/
namespace TrieFeed

namespace Sql

/-- What a pool is connected to. A file's connection remembers how many rows it changed last. -/
inductive Pool where
  | file (database : String) (changed : Nat)
  | server
deriving DecidableEq, Inhabited

/-- Pools under their handles, without those that have been closed. -/
abbrev Pools := Fields (Option Pool)

/-- Closes the pool of a handle, if there is one. -/
def Pools.close (handle : String) (pools : Pools) : Pools :=
  if Fields.has handle pools then Fields.insert handle none pools else pools

def Pools.closeAll (pools : Pools) : Pools := pools.map fun (handle, _) => (handle, none)

/-- Work with pools and the host; what has happened stays when it fails. -/
abbrev Session := ExceptT PluginError (StateM (Pools × Host))

namespace Session

def pools : Session Pools := return (← get).1

def host : Session Host := return (← get).2

def setPools (p : Pools) : Session Unit := modify fun s => (p, s.2)

def setHost (h : Host) : Session Unit := modify fun s => (s.1, h)

def failure (reason : String) : PluginError := .capability "relationalQuery" reason

def connectionFailure : PluginError := failure "connection failed: cannot connect"

def queryFailure : PluginError := failure "query failed: cannot run the statement"

/-- Where a pool connects to, and the names that override those of the address. -/
structure Settings where
  url : String
  user : Option String
  password : Option String

def Settings.ofValue (v : Value) : Except PluginError Settings :=
  let text (name : String) : Option String := (v.get? name).bind Value.text?
  match (text "jdbcUrl").or (text "url") with
  | some url => .ok ⟨url, text "username", text "password"⟩
  | none => .error (failure "createPool: `jdbcUrl` is required")

inductive Backend where
  | server (url : String)
  | file (url : String)

/-- The kind of database that an address names. -/
def backend (url : String) : Except PluginError Backend :=
  let cs := Text.trim url.toList
  let cs := (Text.after? "jdbc:".toList cs).getD cs
  let startsWith (lead : String) : Bool := (Text.after? lead.toList cs).isSome
  if startsWith "postgresql://" || startsWith "postgres://" then .ok (.server (.ofList cs))
  else if startsWith "sqlite:" then .ok (.file (.ofList cs))
  else .error (failure
    s!"unsupported database URL `{String.ofList cs}`; expected postgresql or sqlite")

/-- The file of a database address, before its options. -/
def fileOf? (url : String) : Option String :=
  let cs := (Text.after? "sqlite:".toList url.toList).getD []
  let cs := (Text.after? ['/', '/'] cs).getD cs
  Web.percentDecode? (cs.takeWhile (· ≠ '?'))

/-- Opens the database of a file, which is made if only its directory is there. -/
def openFile (file : String) : Session Unit := do
  let h ← host
  let path := Path.read file
  if path.absolute then
    match h.files.entryAt path with
    | .ok .directory => throw connectionFailure
    | .ok _ => return
    | .error _ =>
      match h.files.find ⟨true, path.parts.dropLast⟩, path.parts.getLast? with
      | .ok above, some (.name n) =>
        if h.files.entry? above = some .directory then
          setHost { h with files := h.files.put (above ++ [n]) (.file []) }
        else throw connectionFailure
      | _, _ => throw connectionFailure

def connectServer (url : String) (s : Settings) : Session Unit := do
  match (Web.Url.read? url).bind ServerAddress.ofUrl? with
  | none => throw connectionFailure
  | some a =>
    let a := { a with user := s.user.or a.user, password := s.password.or a.password }
    let h ← host
    match h.server with
    | none => throw connectionFailure
    | some server =>
      let (accepted, server) := server.connect a
      setHost { h with server := some server }
      if accepted then return else throw connectionFailure

/-- Connects, and says what to. -/
def connect (s : Settings) : Session Pool := do
  match ← (backend s.url : Except PluginError Backend) with
  | .server url =>
    connectServer url s
    return .server
  | .file url =>
    match fileOf? url with
    | none => throw connectionFailure
    | some file =>
      openFile file
      return .file file 0

def createPool (s : Settings) : Session String := do
  let pool ← connect s
  let h ← host
  let opened ← pools
  let handle := s!"pool-{opened.length}"
  setPools (Fields.insert handle (some pool) opened)
  setHost { h with poolCount := h.poolCount + 1 }
  return handle

def pool (handle : String) : Session Pool := do
  match (Fields.get? handle (← pools)).join with
  | some p => return p
  | none => throw (failure s!"unknown pool `{handle}`")

/-- What a statement has led to: records, and the number of rows it changed. -/
structure Ran where
  records : List Record
  changed : Nat

def recordOf (row : ResultRow) : Record :=
  Fields.ofPairs (row.map fun (name, c) => (name, c.toValue))

def runOnFile (handle file : String) (changed : Nat) (sql : String) (parameters : List Value) :
    Session Ran := do
  let h ← host
  let db := (Fields.get? file h.databases).getD .empty
  let course := db.runAll (parameters.map Cell.ofValue) changed sql
  setHost { h with databases := Fields.insert file course.database h.databases }
  setPools (Fields.insert handle (some (.file file course.lastChanged)) (← pools))
  match course.rows with
  | none => throw queryFailure
  | some rows => return ⟨rows.map recordOf, course.changed⟩

def runOnServer (sql : String) (parameters : List Value) : Session Ran := do
  let h ← host
  match h.server with
  | none => throw queryFailure
  | some server =>
    let (reply, server) := server.run sql parameters
    setHost { h with server := some server }
    match reply with
    | some r => return ⟨Server.Reply.records r, Server.Reply.count r⟩
    | none => throw queryFailure

def runStatement (handle sql : String) (parameters : List Value) : Session Ran := do
  match ← pool handle with
  | .file file changed => runOnFile handle file changed sql parameters
  | .server => runOnServer sql parameters

/-- The parameters of a statement: a list, or none. -/
def parameters (args : Arguments) : Except PluginError (List Value) :=
  if (args.get? 2).isNone then .ok [] else args.list 2

/-- Runs the statement of a call. The pool is looked up before the statement is read. -/
def runCall (args : Arguments) : Session Ran := do
  let handle ← (args.text 0 : Except PluginError String)
  let _ ← pool handle
  let sql ← (args.text 1 : Except PluginError String)
  let given ← (parameters args : Except PluginError (List Value))
  runStatement handle sql given

/-- The first cell of the first record. -/
def scalarOf (records : List Record) : Value :=
  match records with
  | ((_, v) :: _) :: _ => v
  | _ => .null

def call (method : String) (args : Arguments) : Session Value := do
  match method with
  | "createPool" =>
    let v ← (args.value 0 : Except PluginError Value)
    let s ← (Settings.ofValue v : Except PluginError Settings)
    return .text (← createPool s)
  | "query" => return .list ((← runCall args).records.map .map)
  | "queryScalar" => return scalarOf (← runCall args).records
  | "execute" => return .int (← runCall args).changed
  | "closePool" =>
    let handle ← (args.text 0 : Except PluginError String)
    setPools (Pools.close handle (← pools))
    return .null
  | _ =>
    let url ← (args.text 0 : Except PluginError String)
    let _ ← connect ⟨url, (args.get? 1).bind Value.text?, (args.get? 2).bind Value.text?⟩
    return .bool true

end Session

end Sql

end TrieFeed
