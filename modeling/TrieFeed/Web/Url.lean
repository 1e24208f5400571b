import TrieFeed.Web.Host
/-!
# Addresses of resources

An absolute address: a scheme, and after it what the scheme says. Names of users, hosts and paths
are kept as written, percent coding included.
-/
namespace TrieFeed.Web

structure Url where
  scheme : String
  user : List Char
  password : Option (List Char)
  host : List Char
  port : Option Nat
  path : List Char
  query : Option (List Char)
deriving DecidableEq, Inhabited

namespace Url

/-- Schemes whose addresses always name a host. -/
def hostSchemes : List String := ["http", "https", "ws", "wss", "ftp"]

/-- Drops blanks and controls at both ends, and tabs and line ends everywhere. -/
def cleaned (text : String) : List Char :=
  let atEnd (c : Char) : Bool := c.toNat ≤ 0x20
  let cs := ((text.toList.dropWhile atEnd).reverse.dropWhile atEnd).reverse
  cs.filter fun c => !(c = '\t' || c = '\n' || c = '\r')

def isAsciiLetter (c : Char) : Bool := ('a' ≤ c && c ≤ 'z') || ('A' ≤ c && c ≤ 'Z')

/-- The scheme and what follows its colon. -/
def scheme? (cs : List Char) : Option (String × List Char) :=
  match Text.cutAt? ':' cs with
  | some (c :: name, rest) =>
    if isAsciiLetter c ∧ name.all (fun c =>
        isAsciiLetter c || Numeral.isDigit c || c = '+' || c = '-' || c = '.') then
      some (Text.asciiLower (.ofList (c :: name)), rest)
    else none
  | _ => none

/-- The authority and the rest, which starts at a slash, a question mark or a number sign. -/
def cutAuthority (isSlash : Char → Bool) (cs : List Char) : List Char × List Char :=
  let inside (c : Char) : Bool := !(isSlash c || c = '?' || c = '#')
  (cs.takeWhile inside, cs.dropWhile inside)

/-- Cuts at the last separator. -/
def cutAtLast? (sep : Char) (cs : List Char) : Option (List Char × List Char) :=
  (Text.cutAt? sep cs.reverse).map fun (after, before) => (before.reverse, after.reverse)

/-- The host and the port, which a colon outside brackets separates. -/
def cutPort (cs : List Char) : List Char × Option (List Char) :=
  match cs with
  | '[' :: _ =>
    match cutAtLast? ']' cs with
    | some (group, ':' :: port) => (group ++ [']'], some port)
    | some (group, []) => (group ++ [']'], none)
    | _ => (cs, none)
  | _ =>
    match Text.cutAt? ':' cs with
    | some (host, port) => (host, some port)
    | none => (cs, none)

/-- A port: nothing, or a number of sixteen bits. -/
def port? (cs : List Char) : Option (Option Nat) :=
  let n := Numeral.ofDigits cs
  if cs.isEmpty then some none
  else if cs.all Numeral.isDigit ∧ n < Nat.pow 2 16 then some (some n)
  else none

/-- The path and the query before a fragment. -/
def cutQuery (cs : List Char) : List Char × Option (List Char) :=
  let cs := cs.takeWhile (· ≠ '#')
  match Text.cutAt? '?' cs with
  | some (path, query) => (path, some query)
  | none => (cs, none)

def isSlash (c : Char) : Bool := c = '/' || c = '\\'

/-- Reads what follows the two slashes. -/
def readAuthority? (scheme : String) (needsHost : Bool) (cs : List Char) : Option Url :=
  let (authority, rest) := cutAuthority (fun c => c = '/' || (needsHost && isSlash c)) cs
  let (userInfo, place) := match cutAtLast? '@' authority with
    | some (info, place) => (some info, place)
    | none => (none, authority)
  let (host, portText) := cutPort place
  let (user, password) := match userInfo.map fun info => (info, Text.cutAt? ':' info) with
    | some (_, some (user, password)) => (user, some password)
    | some (info, none) => (info, none)
    | none => ([], none)
  let (path, query) := cutQuery rest
  let namesHost := !host.isEmpty || !(needsHost || userInfo.isSome || portText.isSome)
  match port? (portText.getD []) with
  | some port =>
    if namesHost ∧ (host.isEmpty ∨ isHost needsHost host) then
      some ⟨scheme, user, password, host, port, path, query⟩
    else none
  | none => none

/-- A letter that names a drive, and its mark. -/
def isDrive (cs : List Char) : Bool :=
  match cs with
  | [letter, mark] => isAsciiLetter letter && (mark = ':' || mark = '|')
  | _ => false

/-- Reads what follows the scheme of a file, which may name a host but no user and no port. -/
def readFile? (scheme : String) (cs : List Char) : Option Url :=
  let (host, rest) : List Char × List Char := match cs with
    | a :: b :: rest =>
      if isSlash a ∧ isSlash b then cutAuthority isSlash rest else ([], cs)
    | _ => ([], cs)
  let (path, query) := cutQuery rest
  if host.isEmpty ∨ isDrive host ∨ isHost true host then
    some ⟨scheme, [], none, host, none, path, query⟩
  else none

/-- Reads an absolute address. -/
def read? (text : String) : Option Url :=
  match scheme? (cleaned text) with
  | none => none
  | some (scheme, rest) =>
    if hostSchemes.contains scheme then readAuthority? scheme true (rest.dropWhile isSlash)
    else if scheme = "file" then readFile? scheme rest
    else
      match rest with
      | '/' :: '/' :: rest => readAuthority? scheme false rest
      | _ =>
        let (path, query) := cutQuery rest
        some ⟨scheme, [], none, [], none, path, query⟩

/-- The fields of the query, in order. -/
def parameters (url : Url) : List (List Char × List Char) :=
  match url.query with
  | none => []
  | some query =>
    ((Text.splitOn '&' query).filter (· ≠ [])).map fun field =>
      (Text.cutAt? '=' field).getD (field, [])

end Url

end TrieFeed.Web
