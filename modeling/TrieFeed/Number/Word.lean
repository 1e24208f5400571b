import TrieFeed.Number.Decimal
/-!
# Numbers in words

Cutting doubles and decimals to whole numbers of so many bits. A double outside the range of a word
becomes the nearest number in it, while a decimal outside it has none.
-/
namespace TrieFeed

namespace Binary64

/-- The value cut toward zero, as a double: the bits of its fraction are cleared. -/
def truncated (x : Binary64) : Binary64 :=
  if x.exponentField < 1023 then zero x.isNegative
  else if x.exponentField < 1075 then
    let cleared := x.fractionField % Nat.pow 2 (1075 - x.exponentField)
    ofMagnitudeBits x.isNegative (x.exponentField * Nat.pow 2 52 + (x.fractionField - cleared))
  else x

/-- The number of a signed word that is nearest to the value cut toward zero; what is not a number
becomes zero. -/
def toSigned (bits : Nat) (x : Binary64) : Int :=
  match x.shape with
  | .notANumber => 0
  | .infinite negative =>
    if negative then -(Nat.pow 2 (bits - 1) : Nat) else (Nat.pow 2 (bits - 1) : Nat) - 1
  | .finite negative m e =>
    let n : Int := (truncMagnitude m e : Nat)
    Numeral.clampSigned bits (if negative then -n else n)

end Binary64

namespace Decimal

/-- The value cut toward zero, if it fits in a signed word. -/
def toSigned? (bits : Nat) (d : Decimal) : Option Int :=
  if Numeral.fitsSigned bits d.trunc then some d.trunc else none

end Decimal

end TrieFeed
