import TrieFeed.Number.Binary64
/-!
# Shortest decimal digits

The digits of a double are the fewest that read back as that double, and of those the nearest to it.
Formats differ only in where they write an exponent, so each is one `Layout` record.
-/
namespace TrieFeed.Shortest

/-- A positive decimal `digits * 10 ^ exponent`. -/
structure Digits where
  digits : Nat
  exponent : Int
deriving DecidableEq

/-- The interval of reals that round to `m * 2 ^ e`, in units of `2 ^ (e - 2)`. -/
structure Interval where
  low : Nat
  middle : Nat
  high : Nat
  closed : Bool

/-- Below a power of two the neighbours lie half as far apart. -/
def Interval.around (m : Nat) (e : Int) : Interval where
  low := if m = Nat.pow 2 52 ∧ -1074 < e then 4 * m - 1 else 4 * m - 2
  middle := 4 * m
  high := 4 * m + 2
  closed := m % 2 = 0

/-- Whether the fraction `a / b` of interval units lies inside. -/
def Interval.holds (i : Interval) (a b : Nat) : Bool :=
  if i.closed then i.low * b ≤ a && a ≤ i.high * b else i.low * b < a && a < i.high * b

/-- `2 ^ e` as a fraction. -/
def power (base : Nat) (e : Int) : Nat × Nat :=
  if 0 ≤ e then (Nat.pow base e.toNat, 1) else (1, Nat.pow base (-e).toNat)

/-- The candidates of the grid `10 ^ k` next to the value: the multiple below and the one above.
The nearer of those that read back wins, and a tie goes to the even one. -/
def onGrid (i : Interval) (e k : Int) : Option Nat :=
  let two := power 2 (e - 2)
  let ten := power 10 k
  let unitNum := two.1 * ten.2
  let unitDen := two.2 * ten.1
  let below := i.middle * unitNum / unitDen
  let inside (d : Nat) : Bool := i.holds (d * unitDen) unitNum
  let rest := 2 * (i.middle * unitNum % unitDen)
  match inside below && below != 0, inside (below + 1) with
  | true, true =>
    some (if rest < unitDen then below else if unitDen < rest then below + 1
      else below + below % 2)
  | true, false => some below
  | false, true => some (below + 1)
  | false, false => none

/-- The exponent of the leading decimal digit of `num / den`, for nonzero arguments. -/
def floorLog10 (num den : Nat) : Int :=
  let guess : Int := ((num.log2 : Int) - (den.log2 : Int)) * 30103 / 100000
  let reached (k : Int) : Bool :=
    let p := power 10 k
    den * p.1 ≤ num * p.2
  if reached (guess + 1) then guess + 1
  else if reached guess then guess
  else guess - 1

def search (i : Interval) (e top : Int) : Nat → Nat → Option Digits
  | 0, _ => none
  | fuel + 1, count =>
    let k := top - (count : Int) + 1
    match onGrid i e k with
    | some d => some ⟨d, k⟩
    | none => search i e top fuel (count + 1)

/-- Drops trailing zeros of the digits, at most `fuel` of them. -/
def strip : Nat → Digits → Digits
  | 0, d => d
  | fuel + 1, d =>
    if d.digits ≠ 0 ∧ d.digits % 10 = 0 then strip fuel ⟨d.digits / 10, d.exponent + 1⟩ else d

/-- The shortest digits of `m * 2 ^ e`, for a nonzero mantissa. Seventeen digits always suffice. -/
def ofFinite (m : Nat) (e : Int) : Digits :=
  let two := power 2 e
  let top := floorLog10 (m * two.1) two.2
  match search (.around m e) e top 17 1 with
  | some d => strip 20 d
  | none => ⟨0, 0⟩

/-- How a format writes a number. The decimal exponent is that of the leading digit. -/
structure Layout where
  /-- Least decimal exponent written without an exponent. -/
  lowest : Int
  /-- Least decimal exponent too large to be written without one. -/
  highest : Int
  /-- Whether whole numbers keep one zero after the point. -/
  keepPoint : Bool
  /-- Whether zero keeps its sign. -/
  signedZero : Bool
  notANumber : String
  infinity : String

/-- Written out in full, whatever the size. -/
def Layout.display : Layout := ⟨-400, 400, false, true, "NaN", "inf"⟩

/-- Documents have no spelling for values that are not finite. -/
def Layout.document : Layout := ⟨-5, 16, true, true, "null", "null"⟩

/-- The scripting language's own spelling. -/
def Layout.script : Layout := ⟨-6, 21, false, false, "NaN", "Infinity"⟩

def zeros (n : Nat) : String := .ofList (List.replicate n '0')

/-- Writes digits without an exponent. -/
def positional (keepPoint : Bool) (text : String) (exponent : Int) : String :=
  if 0 ≤ exponent then
    text ++ zeros exponent.toNat ++ (if keepPoint then ".0" else "")
  else
    let places := (-exponent).toNat
    let count := text.length
    if places < count then
      let cs := text.toList
      .ofList (cs.take (count - places)) ++ "." ++ .ofList (cs.drop (count - places))
    else "0." ++ zeros (places - count) ++ text

/-- Writes digits with one place before the point and a signed exponent. -/
def exponential (text : String) (lead : Int) : String :=
  let cs := text.toList
  let mantissa := match cs with
    | [] => ""
    | [c] => .ofList [c]
    | c :: rest => .ofList (c :: '.' :: rest)
  let sign := if lead < 0 then "e-" else "e+"
  mantissa ++ sign ++ toString lead.natAbs

def Layout.write (l : Layout) (x : Binary64) : String :=
  match x.shape with
  | .notANumber => l.notANumber
  | .infinite negative => if negative then "-" ++ l.infinity else l.infinity
  | .finite negative m e =>
    let body :=
      if m = 0 then if l.keepPoint then "0.0" else "0"
      else
        let d := ofFinite m e
        let text := toString d.digits
        let lead : Int := d.exponent + (text.length : Int) - 1
        if l.lowest ≤ lead ∧ lead < l.highest then positional l.keepPoint text d.exponent
        else exponential text lead
    if negative ∧ (m ≠ 0 ∨ l.signedZero) then "-" ++ body else body

end TrieFeed.Shortest
