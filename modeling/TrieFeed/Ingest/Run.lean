import TrieFeed.Ingest.TrieStore
import TrieFeed.Provider.Basic
import TrieFeed.Time.Calendar
/-!
# Ingestion

A run fetches the records of a provider and takes them one by one: invalid records are skipped,
valid ones are serialized and put into the target, and whatever fails is reported under the
record's position. Nothing but a failed fetch ends a run early.
-/
namespace TrieFeed.Ingest

/-- The account of one run. -/
structure Report where
  provider : String
  target : String
  fetched : Nat
  ingested : Nat
  skipped : Nat
  errors : List String
deriving DecidableEq, Inhabited

def Report.isClean (r : Report) : Bool := r.errors.isEmpty

/-- The account as a document, with the instants of the run's start and end. -/
def Report.toJson (start finish : Int) (r : Report) : Json :=
  .object [("provider", .text r.provider), ("target", .text r.target), ("fetched", .int r.fetched),
    ("ingested", .int r.ingested), ("skipped", .int r.skipped),
    ("errors", .list (r.errors.map .text)), ("startedAt", .text (Time.instantText start)),
    ("finishedAt", .text (Time.instantText finish))]

/-- What became of one record. -/
inductive Outcome where
  | ingested
  | skipped
  | failed (text : String)
deriving DecidableEq

variable {σ : Type}

/-- Serializes a record and puts it into the target. -/
def putRecord (p : Provider σ) (target : String) (record : Record) (s : σ) (store : TrieStore) :
    Except ProviderError Unit × σ × TrieStore :=
  match p.key record s with
  | (.error e, s) => (.error e, s, store)
  | (.ok key, s) =>
    match p.value record s with
    | (.error e, s) => (.error e, s, store)
    | (.ok value, s) =>
      let (result, store) := store.put target key value
      (result, s, store)

/-- Takes one record at its position. -/
def takeRecord (p : Provider σ) (target : String) (index : Nat) (record : Record) (s : σ)
    (store : TrieStore) : Outcome × σ × TrieStore :=
  match p.validate record s with
  | (.error e, s) => (.failed s!"record {index}: validate: {e.message}", s, store)
  | (.ok verdict, s) =>
    if verdict.valid then
      match putRecord p target record s store with
      | (.ok (), s, store) => (.ingested, s, store)
      | (.error e, s, store) => (.failed s!"record {index}: {e.message}", s, store)
    else (.skipped, s, store)

/-- Takes records in order, from a position on. -/
def takeAll (p : Provider σ) (target : String) :
    Nat → List Record → σ → TrieStore → List Outcome × σ × TrieStore
  | _, [], s, store => ([], s, store)
  | index, record :: rest, s, store =>
    let (outcome, s, store) := takeRecord p target index record s store
    let (outcomes, s, store) := takeAll p target (index + 1) rest s store
    (outcome :: outcomes, s, store)

def Outcome.error? : Outcome → Option String
  | .failed text => some text
  | _ => none

/-- The account of what became of each record. -/
def reportOf (provider target : String) (outcomes : List Outcome) : Report where
  provider
  target
  fetched := outcomes.length
  ingested := outcomes.countP (· = .ingested)
  skipped := outcomes.countP (· = .skipped)
  errors := outcomes.filterMap Outcome.error?

/-- One run of a provider into a target. -/
def run (p : Provider σ) (target : String) (config : Record) (s : σ) (store : TrieStore) :
    Except ProviderError Report × σ × TrieStore :=
  match p.fetch config s with
  | (.error e, s) => (.error e, s, store)
  | (.ok records, s) =>
    let (outcomes, s, store) := takeAll p target 0 records s store
    (.ok (reportOf p.name target outcomes), s, store)

end TrieFeed.Ingest
