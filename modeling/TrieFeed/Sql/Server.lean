import TrieFeed.Files.Path
import TrieFeed.Sql.Wire
import TrieFeed.Value.Basic
import TrieFeed.Web.Url
/-!
# Database servers

A server listens on a socket in a directory, takes logins with a password and answers each statement
that it knows by its text. It keeps what it was told, the latest first.
-/
namespace TrieFeed.Sql

structure Login where
  user : String
  database : Option String
  password : String
deriving DecidableEq, Inhabited

/-- The answer to a statement. Columns have a name and the name of their type. -/
structure Reply where
  sql : String
  columns : List (String × String)
  rows : List (List (Option Bytes))
  tag : Option String
  fails : Bool
deriving Inhabited

structure Server where
  directory : Path
  port : Nat
  replies : List Reply
  refuses : Bool
  logins : List Login
  received : List (List Wire.Sent)

/-- Where to connect and as whom. -/
structure ServerAddress where
  directory : Option String
  port : Nat
  user : Option String
  password : Option String
  database : Option String
  needsEncryption : Bool
deriving Inhabited

namespace ServerAddress

def defaultPort : Nat := 5432

/-- The account that connects when no user is named. -/
def defaultUser : String := "root"

/-- How a connection may be encrypted, and whether it has to be. -/
def encryption? (name : String) : Option Bool :=
  match Text.asciiLower name with
  | "disable" | "allow" | "prefer" => some false
  | "require" | "verify-ca" | "verify-full" => some true
  | _ => none

/-- Takes one field of the query; unknown ones say nothing. -/
def withParameter (a : ServerAddress) (name value : String) : Option ServerAddress :=
  match name with
  | "sslmode" | "ssl-mode" => (encryption? value).map fun b => { a with needsEncryption := b }
  | "host" =>
    some (if value.toList.head? = some '/' then { a with directory := some value } else a)
  | "port" => (Numeral.unsignedWord? 16 value.toList).map fun p => { a with port := p }
  | "dbname" => some { a with database := some value }
  | "user" => some { a with user := some value }
  | "password" => some { a with password := some value }
  | _ => some a

/-- Text that is given, decoded. -/
def decoded? (cs : List Char) : Option (Option String) :=
  if cs.isEmpty then some none else (Web.percentDecode? cs).map some

def ofUrl? (url : Web.Url) : Option ServerAddress := do
  let host ← Web.percentDecode? url.host
  let start : ServerAddress := {
    directory := if host.toList.head? = some '/' then some host else none
    port := url.port.getD defaultPort
    user := ← decoded? url.user
    password := ← decoded? (url.password.getD [])
    database := ← decoded? (url.path.dropWhile (· = '/'))
    needsEncryption := false }
  url.parameters.foldlM (fun a (name, value) => do
    a.withParameter (← Web.formDecode? name) (← Web.formDecode? value)) start

def login (a : ServerAddress) : Login :=
  ⟨a.user.getD defaultUser, a.database, a.password.getD ""⟩

end ServerAddress

namespace Server

/-- Whether an address leads to the server. -/
def isAt (s : Server) (a : ServerAddress) : Bool :=
  a.port = s.port && !a.needsEncryption &&
    a.directory.any fun d => (Path.read d).normalize = s.directory

/-- Logs in, and says whether the server let it. -/
def connect (a : ServerAddress) (s : Server) : Bool × Server :=
  if s.isAt a then (!s.refuses, { s with logins := a.login :: s.logins }) else (false, s)

/-- The number at the end of a command's tag. -/
def countOf (tag : String) : Nat :=
  let last := (tag.toList.reverse.takeWhile (· ≠ ' ')).reverse
  let digits := last.takeWhile Numeral.isDigit
  let n := Numeral.ofDigits digits
  if tag.toList.contains ' ' ∧ n < Nat.pow 2 64 then n else 0

def Reply.records (r : Reply) : List Record :=
  if r.columns.isEmpty then []
  else r.rows.map fun row =>
    Fields.ofPairs (List.zipWith (fun (name, kind) b => (name, Wire.cell kind b)) r.columns row)

def Reply.count (r : Reply) : Nat := countOf (r.tag.getD s!"SELECT {r.rows.length}")

/-- Sends a statement with its parameters; there is no reply to one that fails. -/
def run (sql : String) (parameters : List Value) (s : Server) : Option Reply × Server :=
  match s.replies.find? (·.sql = sql) with
  | some r =>
    if r.fails then (none, s)
    else (some r, { s with received := parameters.map Wire.send :: s.received })
  | none => (none, s)

end Server

end TrieFeed.Sql
