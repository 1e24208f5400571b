import TrieFeed.Text.Blank
/-!
# Arguments

The application is called with options and one command. Options that belong to all commands may
stand before it or after it, and there the latter count; within either part none may be repeated.
-/
namespace TrieFeed.App

inductive Command where
  | serve
  | list
  | schema (provider : String)
  | trigger (provider : String) (target : Option String)
  | check (directory : String)
deriving DecidableEq, Inhabited

structure Invocation where
  /-- The path of the settings document. -/
  settings : String
  json : Bool
  command : Command
deriving DecidableEq, Inhabited

inductive Verb where
  | serve
  | list
  | schema
  | trigger
  | check
deriving DecidableEq, Inhabited

namespace Verb

def all : List Verb := [.serve, .list, .schema, .trigger, .check]

def word : Verb → String
  | .serve => "serve"
  | .list => "list"
  | .schema => "schema"
  | .trigger => "trigger"
  | .check => "check"

def ofWord? (word : String) : Option Verb := all.find? (·.word = word)

/-- How many words follow a verb. -/
def arity : Verb → Nat
  | .serve | .list => 0
  | .schema | .trigger | .check => 1

end Verb

/-- What help is given on. -/
inductive Topic where
  | application
  | command (verb : Verb)
  | help
deriving DecidableEq, Inhabited

namespace Topic

/-- Whether a target may be given. -/
def takesTarget (t : Topic) : Bool := t = .command .trigger

/-- Whether the version may be asked for. -/
def hasVersion (t : Topic) : Bool := t = .application

end Topic

/-- Why there is nothing to run. -/
inductive Refusal where
  | help (topic : Topic) (full : Bool)
  | version
  | misuse
deriving DecidableEq, Inhabited

namespace Arguments

def defaultSettings : String := "dataprover.toml"

/-- What has been read before a verb, or after one. -/
structure Part where
  settings : Option String
  json : Bool
  target : Option String
  words : List String
deriving Inhabited

def Part.empty : Part := ⟨none, false, none, []⟩

/-- The options that take a value. -/
inductive ValueOption where
  | settings
  | target

/-- An argument by its form. -/
inductive Form where
  | word
  | wordsOnly
  | json
  | help (full : Bool)
  | version
  | valued (option : ValueOption) (value : Option String)
  | unknown

/-- The value after an equals sign, if there is one. -/
def attached (cs : List Char) : Option String :=
  match cs with
  | [] => none
  | '=' :: value => some (.ofList value)
  | value => some (.ofList value)

def longForm (topic : Topic) (cs : List Char) : Form :=
  let name := String.ofList (cs.takeWhile (· ≠ '='))
  let value := attached (cs.dropWhile (· ≠ '='))
  match name, value with
  | "json", none => .json
  | "help", none => .help true
  | "version", none => if topic.hasVersion then .version else .unknown
  | "config", _ => .valued .settings value
  | "target", _ => if topic.takesTarget then .valued .target value else .unknown
  | _, _ => .unknown

def shortForm (topic : Topic) (c : Char) (cs : List Char) : Form :=
  match c with
  | 'h' => .help false
  | 'V' => if topic.hasVersion then .version else .unknown
  | 'c' => .valued .settings (attached cs)
  | 't' => if topic.takesTarget then .valued .target (attached cs) else .unknown
  | _ => .unknown

def form (topic : Topic) (arg : String) : Form :=
  match arg.toList with
  | ['-', '-'] => .wordsOnly
  | '-' :: '-' :: cs => longForm topic cs
  | '-' :: c :: cs => shortForm topic c cs
  | _ => .word

/-- Takes the value of an option, which is given once; the path of the document is not empty. -/
def Part.withValue (option : ValueOption) (value : String) (p : Part) : Except Refusal Part :=
  match option with
  | .settings =>
    if p.settings.isSome || value.isEmpty then .error .misuse
    else .ok { p with settings := some value }
  | .target =>
    if p.target.isSome then .error .misuse else .ok { p with target := some value }

/-- Takes an option, if the first argument is one, with what it leaves of the arguments. -/
def takeOption (topic : Topic) (arg : String) (rest : List String) (p : Part) :
    Except Refusal (Part × List String) :=
  match form topic arg with
  | .json => if p.json then .error .misuse else .ok ({ p with json := true }, rest)
  | .help full => .error (.help topic full)
  | .version => .error .version
  | .valued option (some value) => (p.withValue option value).map fun p => (p, rest)
  | .valued option none =>
    match rest with
    | value :: rest =>
      match form topic value with
      | .word => (p.withValue option value).map fun p => (p, rest)
      | _ => .error .misuse
    | [] => .error .misuse
  | .word | .wordsOnly | .unknown => .error .misuse

/-- Takes a word after the verb, of which there may be so many. -/
def Part.withWord (arity : Nat) (word : String) (p : Part) : Except Refusal Part :=
  if p.words.length < arity then .ok { p with words := p.words ++ [word] } else .error .misuse

/-- The part after the verb. -/
def afterVerb (verb : Verb) : Nat → List String → Part → Except Refusal Part
  | _, [], p => .ok p
  | 0, _ :: _, _ => .error .misuse
  | fuel + 1, arg :: rest, p =>
    let topic := Topic.command verb
    match form topic arg with
    | .word => (p.withWord verb.arity arg).bind (afterVerb verb fuel rest)
    | .wordsOnly => rest.foldlM (fun p word => p.withWord verb.arity word) p
    | _ => (takeOption topic arg rest p).bind fun (p, rest) => afterVerb verb fuel rest p

/-- The command of a verb and what follows it. -/
def command (verb : Verb) (p : Part) : Except Refusal Command :=
  match verb, p.words with
  | .serve, [] => .ok .serve
  | .list, [] => .ok .list
  | .schema, [provider] => .ok (.schema provider)
  | .trigger, [provider] => .ok (.trigger provider p.target)
  | .check, [directory] => if directory.isEmpty then .error .misuse else .ok (.check directory)
  | _, _ => .error .misuse

/-- What the words after `help` ask about. -/
def topic? : List String → Option Topic
  | [] => some .application
  | ["help"] => some .help
  | [word] => (Verb.ofWord? word).map .command
  | _ => none

/-- The part before the verb, and then the rest. -/
def fromStart : Nat → List String → Part → Except Refusal Invocation
  | _, [], _ => .error .misuse
  | 0, _ :: _, _ => .error .misuse
  | fuel + 1, arg :: rest, before =>
    match form .application arg, Verb.ofWord? arg with
    | .word, some verb => do
      let after ← afterVerb verb rest.length rest .empty
      return ⟨(after.settings.or before.settings).getD defaultSettings,
        before.json || after.json, ← command verb after⟩
    | .word, none =>
      if arg = "help" then .error (((topic? rest).map (.help · true)).getD .misuse)
      else .error .misuse
    | _, _ => (takeOption .application arg rest before).bind fun (p, rest) => fromStart fuel rest p

/-- Reads all arguments. -/
def read (args : List String) : Except Refusal Invocation := fromStart args.length args .empty

end Arguments

end TrieFeed.App
