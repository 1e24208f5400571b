import TrieFeed.Fields
import TrieFeed.Provider.Error
import TrieFeed.Text.Utf8
/-!
# The trie store

Entries live under targets, and a target must have been created before it takes any. A target keeps
the scheme of its first creation. The store in memory proves an entry by its value.
-/
namespace TrieFeed

/-- A target: its scheme, and entries under byte keys. -/
structure Target where
  scheme : String
  entries : List (Bytes × Bytes)
deriving DecidableEq, Inhabited

def Target.get? (key : Bytes) (t : Target) : Option Bytes :=
  (t.entries.find? (·.1 = key)).map (·.2)

/-- Replaces the value of a key, or adds the key. -/
def putEntry (key value : Bytes) : List (Bytes × Bytes) → List (Bytes × Bytes)
  | [] => [(key, value)]
  | (k, v) :: rest => if k = key then (key, value) :: rest else (k, v) :: putEntry key value rest

structure TrieStore where
  targets : Fields Target
deriving Inhabited

namespace TrieStore

def empty : TrieStore := ⟨[]⟩

def exists? (target : String) (s : TrieStore) : Bool := Fields.has target s.targets

def scheme? (target : String) (s : TrieStore) : Option String :=
  (Fields.get? target s.targets).map (·.scheme)

def get? (target : String) (key : Bytes) (s : TrieStore) : Option Bytes :=
  (Fields.get? target s.targets).bind (·.get? key)

/-- The number of keys in a target. -/
def size (target : String) (s : TrieStore) : Nat :=
  ((Fields.get? target s.targets).map (·.entries.length)).getD 0

def put (target : String) (key value : Bytes) (s : TrieStore) :
    Except ProviderError Unit × TrieStore :=
  match Fields.get? target s.targets with
  | none => (.error (.ingestion target "target does not exist"), s)
  | some t =>
    (.ok (), ⟨Fields.insert target { t with entries := putEntry key value t.entries } s.targets⟩)

/-- Creates a target; one that exists stays as it is. -/
def create (target scheme : String) (s : TrieStore) : TrieStore :=
  if s.exists? target then s else ⟨Fields.insert target ⟨scheme, []⟩ s.targets⟩

/-- Creates a target unless it exists, and answers whether it did. -/
def ensure (target scheme : String) (s : TrieStore) : Bool × TrieStore :=
  if s.exists? target then (false, s) else (true, s.create target scheme)

/-- The proof of an entry, if it is there. -/
def proof? (target : String) (key : Bytes) (s : TrieStore) : Option Bytes := s.get? target key

end TrieStore

end TrieFeed
