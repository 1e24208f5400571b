import TrieFeed.Provider.Error
import TrieFeed.Provider.Report
/-!
# Data providers

A provider is what it can do: fetch records, judge them, and serialize their keys and values. Its
operations act on a state of its own choosing. What is not required has a default here.
-/
namespace TrieFeed

/-- An operation that may fail, and changes a state either way. -/
abbrev Action (σ α : Type) := σ → Except ProviderError α × σ

namespace Action

variable {σ α : Type}

def succeed (a : α) : Action σ α := fun s => (.ok a, s)

def failWith (e : ProviderError) : Action σ α := fun s => (.error e, s)

end Action

/-- A source of records over the state `σ`. -/
structure Provider (σ : Type) where
  name : String
  description : String
  start : Record → Action σ Unit
  fetch : Record → Action σ (List Record)
  key : Record → Action σ Bytes
  value : Record → Action σ Bytes
  metadata : Metadata := Metadata.plain name description
  readiness : σ → Readiness := fun _ => .available
  validate : Record → Action σ Verdict := fun _ => Action.succeed .pass
  schema : Action σ Schema := Action.succeed .empty
  connectionSchema : Action σ Schema := Action.succeed .empty
  test : Record → Action σ Trial := fun _ => Action.succeed .pass
  reconfigure : Record → Action σ Unit := start
  keyFromInput : String → Action σ Bytes := fun _ =>
    Action.failWith (.unsupported name "serializeKeyFromInput")
  close : σ → σ := id

end TrieFeed
