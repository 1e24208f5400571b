import TrieFeed.Number.Binary64
import TrieFeed.Number.Numeral
/-!
# Decimals

A fixed-point decimal keeps its scale: `1.50` and `1.5` are different decimals with equal value.
The coefficient has at most ninety-six bits and the scale is at most twenty-eight. Zero has no sign.
-/
namespace TrieFeed

/-- The decimal `coefficient / 10 ^ scale`. -/
structure Decimal where
  coefficient : Int
  scale : Nat
deriving DecidableEq, Inhabited

namespace Decimal

/-- Coefficients stay below this bound. -/
def limit : Nat := Nat.pow 2 96

def maxScale : Nat := 28

/-- The value cut toward zero. -/
def trunc (d : Decimal) : Int := d.coefficient.tdiv (Nat.pow 10 d.scale : Nat)

def isWhole (d : Decimal) : Bool := d.coefficient.natAbs % Nat.pow 10 d.scale == 0

/-- The nearest double. -/
def toBinary64 (d : Decimal) : Binary64 :=
  .ofRatio (d.coefficient < 0) d.coefficient.natAbs (Nat.pow 10 d.scale)

/-- Digits with the point in its place and a zero before a leading point. -/
def toString (d : Decimal) : String :=
  let digits := (Nat.repr d.coefficient.natAbs).toList
  let padded := List.replicate (d.scale + 1 - digits.length) '0' ++ digits
  let whole := padded.take (padded.length - d.scale)
  let fraction := padded.drop (padded.length - d.scale)
  let body := if d.scale = 0 then whole else whole ++ '.' :: fraction
  .ofList (if d.coefficient < 0 then '-' :: body else body)

/-- The nearest decimal of a smaller scale; a half goes away from zero. -/
def roundTo (d : Decimal) (scale : Nat) : Decimal :=
  if d.scale ≤ scale then d
  else
    let p := Nat.pow 10 (d.scale - scale)
    let q := (2 * d.coefficient.natAbs + p) / (2 * p)
    ⟨if d.coefficient < 0 then -(q : Int) else q, scale⟩

/-- Raises the scale by so many digits, or by as many as fit. -/
def raise : Nat → Decimal → Decimal
  | 0, d => d
  | n + 1, d =>
    if d.scale < maxScale ∧ 10 * d.coefficient.natAbs < limit then
      raise n ⟨10 * d.coefficient, d.scale + 1⟩
    else d

/-- The decimal at another scale, or as near to it as it fits. -/
def rescale (d : Decimal) (scale : Nat) : Decimal :=
  if d.scale ≤ scale then raise (scale - d.scale) d else d.roundTo scale

/-- Lowers the scale of a decimal whose coefficient is too large until it fits. -/
def fitted? (d : Decimal) : Option Decimal :=
  (List.range (d.scale + 1)).findSome? fun dropped =>
    let r := d.roundTo (d.scale - dropped)
    if r.coefficient.natAbs < limit then some r else none

def magnitude? (negative : Bool) (cs : List Char) : Option Decimal :=
  let whole := cs.takeWhile Numeral.isDigit
  let fraction? : Option (List Char) := match cs.dropWhile Numeral.isDigit with
    | [] => some []
    | '.' :: tail => if tail ≠ [] ∧ tail.all Numeral.isDigit then some tail else none
    | _ => none
  match fraction? with
  | some fraction =>
    let n := Numeral.ofDigits (whole ++ fraction)
    if whole ≠ [] ∧ n < limit ∧ fraction.length ≤ maxScale then
      some ⟨if negative then -(n : Int) else n, fraction.length⟩
    else none
  | none => none

/-- Reads what `toString` writes. -/
def read? : List Char → Option Decimal
  | '-' :: cs => magnitude? true cs
  | cs => magnitude? false cs

end Decimal

end TrieFeed
