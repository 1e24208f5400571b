import TrieFeed.Fields
import TrieFeed.Number.Binary64
/-!
# Documents

The values of a JSON document. A number is a whole number where its text says so and it fits in
sixty-four bits, and a double otherwise.
-/
namespace TrieFeed

inductive Json where
  | null
  | bool (b : Bool)
  | int (n : Int)
  | float (x : Binary64)
  | text (s : String)
  | list (items : List Json)
  | object (fields : List (String × Json))
deriving Inhabited

namespace Json

/-- Whole numbers that a document holds as such: those of a signed or an unsigned word. -/
def holdsInt (n : Int) : Bool := -(Nat.pow 2 63) ≤ n && n < Nat.pow 2 64

def field? (name : String) : Json → Option Json
  | .object fields => Fields.get? name fields
  | _ => none

end Json

end TrieFeed
