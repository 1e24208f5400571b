import TrieFeed.Text.Utf8
/-!
# Data items

The language-neutral values that have a binary form. A map keeps every pair in order, whatever its
keys are.
-/
namespace TrieFeed

inductive Item where
  | null
  | int (n : Int)
  | bytes (b : Bytes)
  | text (s : String)
  | bool (b : Bool)
  | list (items : List Item)
  | map (entries : List (Item × Item))
deriving Inhabited

end TrieFeed
