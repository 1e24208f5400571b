import TrieFeed.Capability.Arguments
import TrieFeed.Json.Printer
import TrieFeed.Value.Json
import TrieFeed.Web.Url
/-!
# Requests

Scripts send requests if their sandbox allows it. A request is judged before it is sent: the sandbox
first, then its address, then the names and values of its headers in order. Nothing answers here, so
sending always fails.
-/
namespace TrieFeed.Http

def failure (reason : String) : PluginError := .capability "httpClient" reason

/-- The name of a method of the capability in a request. -/
def verb (method : String) : String :=
  match method with
  | "get" => "GET"
  | "post" => "POST"
  | "put" => "PUT"
  | _ => "DELETE"

/-- Characters of a token. -/
def isTokenChar (c : Char) : Bool := c.isAlphanum || "!#$%&'*+-.^_`|~".toList.contains c

def isHeaderName (name : String) : Bool :=
  let cs := name.toList
  !cs.isEmpty && cs.length < Nat.pow 2 16 && cs.all isTokenChar

/-- Tabs, and everything from the space up but the delete character. -/
def isHeaderText (text : String) : Bool :=
  text.toList.all fun c => c = '\t' || (0x20 ≤ c.toNat && c.toNat ≠ 0x7f)

/-- A header's value as it is sent. -/
def headerText : Value → String
  | .text s => s
  | v => v.toJson.compact

/-- Finds the first header that cannot be sent. -/
def checkHeaders : Record → Except PluginError Unit
  | [] => .ok ()
  | (name, v) :: rest =>
    if !isHeaderName name then .error (failure s!"invalid header name `{name}`: not a token")
    else if !isHeaderText (headerText v) then
      .error (failure s!"invalid header value for `{name}`: control character")
    else checkHeaders rest

def headers (options : Option Value) : Record :=
  ((options.bind (·.get? "headers")).bind Value.map?).getD []

/-- Sends a request, which fails for want of an answer if not before. -/
def request (allowed : Bool) (method url : String) (options : Option Value) : PluginError :=
  if !allowed then
    .securityViolation s!"network access is disabled for this provider ({method} {url})"
  else if (Web.Url.read? url).isNone then failure s!"invalid URL `{url}`: not an address"
  else
    match checkHeaders (headers options) with
    | .error e => e
    | .ok () => failure s!"{method} {url} failed: no answer"

def call (allowed : Bool) (method : String) (args : Arguments) : Except PluginError Value := do
  let url ← args.text 0
  throw (request allowed (verb method) url (args.get? 1))

end TrieFeed.Http
