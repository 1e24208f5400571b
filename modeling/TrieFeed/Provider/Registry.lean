import TrieFeed.Provider.Error
import TrieFeed.Fields
/-!
# The provider registry

One provider stands under each name, and a later one replaces it. Listings are in order of names.
-/
namespace TrieFeed

/-- Providers under their names. -/
structure Registry (α : Type) where
  entries : Fields α
deriving Inhabited

namespace Registry

variable {α : Type}

def empty : Registry α := ⟨[]⟩

/-- Puts a provider under a name and hands back the one it replaces. -/
def register (name : String) (provider : α) (r : Registry α) : Option α × Registry α :=
  (Fields.get? name r.entries, ⟨Fields.insert name provider r.entries⟩)

/-- Takes a provider out and hands it back. -/
def unregister (name : String) (r : Registry α) : Option α × Registry α :=
  (Fields.get? name r.entries, ⟨Fields.erase name r.entries⟩)

def find (name : String) (r : Registry α) : Except ProviderError α :=
  match Fields.get? name r.entries with
  | some provider => .ok provider
  | none => .error (.notFound name)

def contains (name : String) (r : Registry α) : Bool := Fields.has name r.entries

def sorted (r : Registry α) : List (String × α) := Fields.sorted r.entries

def names (r : Registry α) : List String := r.sorted.map (·.1)

def providers (r : Registry α) : List α := r.sorted.map (·.2)

def size (r : Registry α) : Nat := r.entries.length

end Registry

end TrieFeed
