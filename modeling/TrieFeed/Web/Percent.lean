import TrieFeed.Text.Utf8
/-!
# Percent coding

`%` and two hexadecimal digits stand for a byte; a `%` without them stands for itself.
-/
namespace TrieFeed.Web

def hexValue? (c : Char) : Option Nat :=
  if '0' ≤ c ∧ c ≤ '9' then some (c.toNat - 48)
  else if 'a' ≤ c ∧ c ≤ 'f' then some (c.toNat - 87)
  else if 'A' ≤ c ∧ c ≤ 'F' then some (c.toNat - 55)
  else none

def percentBytes : List Char → Bytes
  | [] => []
  | '%' :: a :: b :: rest =>
    match hexValue? a, hexValue? b with
    | some x, some y => .ofNat (16 * x + y) :: percentBytes rest
    | _, _ => 0x25 :: percentBytes (a :: b :: rest)
  | c :: rest => Utf8.encodeChar c ++ percentBytes rest

/-- The text of percent-coded text, if it is well formed. -/
def percentDecode? (cs : List Char) : Option String := Utf8.decode? (percentBytes cs)

/-- A form field, in which a plus sign stands for a space. -/
def formDecode? (cs : List Char) : Option String :=
  percentDecode? (cs.map fun c => if c = '+' then ' ' else c)

end TrieFeed.Web
