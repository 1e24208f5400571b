/-!
# Doubles

A double is its sixty-four bits. Its value is read exactly as `m * 2 ^ e`, and every operation that
makes a new double rounds an exact quotient of naturals once, to the nearest double and to the even
one on a tie. Nothing here depends on machine arithmetic.
-/
namespace TrieFeed

/-- An IEEE 754 binary64 number, kept as its bits. -/
structure Binary64 where
  bits : UInt64
deriving DecidableEq, Inhabited

namespace Binary64

/-- What a bit pattern stands for. A finite value is `m * 2 ^ e` with the given sign. -/
inductive Shape where
  | notANumber
  | infinite (negative : Bool)
  | finite (negative : Bool) (m : Nat) (e : Int)
deriving DecidableEq

def isNegative (x : Binary64) : Bool := x.bits.toNat / Nat.pow 2 63 == 1

def exponentField (x : Binary64) : Nat := x.bits.toNat / Nat.pow 2 52 % 2048

def fractionField (x : Binary64) : Nat := x.bits.toNat % Nat.pow 2 52

def shape (x : Binary64) : Shape :=
  if x.exponentField = 2047 then
    if x.fractionField = 0 then .infinite x.isNegative else .notANumber
  else if x.exponentField = 0 then .finite x.isNegative x.fractionField (-1074)
  else .finite x.isNegative (Nat.pow 2 52 + x.fractionField) ((x.exponentField : Int) - 1075)

def nan : Binary64 := ⟨0x7ff8000000000000⟩

def ofMagnitudeBits (negative : Bool) (magnitude : Nat) : Binary64 :=
  ⟨.ofNat (if negative then Nat.pow 2 63 + magnitude else magnitude)⟩

def infinity (negative : Bool) : Binary64 := ofMagnitudeBits negative (2047 * Nat.pow 2 52)

def zero (negative : Bool) : Binary64 := ofMagnitudeBits negative 0

def isNaN (x : Binary64) : Bool :=
  match x.shape with
  | .notANumber => true
  | _ => false

def isFinite (x : Binary64) : Bool :=
  match x.shape with
  | .finite .. => true
  | _ => false

/-- The natural nearest to `num / den`; a half goes to the even neighbour. -/
def roundHalfEven (num den : Nat) : Nat :=
  let q := num / den
  let r := num % den
  if 2 * r < den then q else if den < 2 * r then q + 1 else q + q % 2

/-- The exponent of the highest bit of `num / den`, for nonzero arguments. -/
def floorLog2 (num den : Nat) : Int :=
  let k : Int := (num.log2 : Int) - (den.log2 : Int)
  let reached :=
    if 0 ≤ k then den * Nat.pow 2 k.toNat ≤ num else den ≤ num * Nat.pow 2 (-k).toNat
  if reached then k else k - 1

/-- The double nearest to `num / den`; ties go to the even mantissa, overflow to infinity.
Mantissa and exponent add up in one number, so a carry out of the mantissa needs no case. -/
def ofRatio (negative : Bool) (num den : Nat) : Binary64 :=
  if num = 0 ∨ den = 0 then zero negative
  else
    let e : Int := max (floorLog2 num den - 52) (-1074)
    let q := if 0 ≤ e then roundHalfEven num (den * Nat.pow 2 e.toNat)
      else roundHalfEven (num * Nat.pow 2 (-e).toNat) den
    ofMagnitudeBits negative (min ((e + 1074).toNat * Nat.pow 2 52 + q) (2047 * Nat.pow 2 52))

def ofInt (n : Int) : Binary64 := ofRatio (n < 0) n.natAbs 1

/-- The double nearest to `±digits * 10 ^ exponent`. Exponents far outside the range of doubles are
clamped first, so that the power of ten stays small. -/
def ofScientific (negative : Bool) (digits : Nat) (exponent : Int) : Binary64 :=
  if digits = 0 then zero negative
  else
    let size : Int := (digits.log2 : Int)
    if 0 ≤ exponent then
      if 400 < exponent then infinity negative
      else ofRatio negative (digits * Nat.pow 10 exponent.toNat) 1
    else if exponent * 3 + size < -1200 then zero negative
    else ofRatio negative digits (Nat.pow 10 (-exponent).toNat)

/-- Magnitude cut to a whole number. -/
def truncMagnitude (m : Nat) (e : Int) : Nat :=
  if 0 ≤ e then m * Nat.pow 2 e.toNat else m / Nat.pow 2 (-e).toNat

/-- The value cut toward zero; absent for values that are not finite. -/
def trunc? (x : Binary64) : Option Int :=
  match x.shape with
  | .finite negative m e =>
    let n : Int := (truncMagnitude m e : Nat)
    some (if negative then -n else n)
  | _ => none

/-- The value itself where it is a whole number. -/
def integral? (x : Binary64) : Option Int :=
  match x.shape with
  | .finite negative m e =>
    if 0 ≤ e ∨ m % Nat.pow 2 (-e).toNat = 0 then
      let n : Int := (truncMagnitude m e : Nat)
      some (if negative then -n else n)
    else none
  | _ => none

/-- The signed mantissa of a finite value over the exponent `e ≥ floor`. -/
def scaled (negative : Bool) (m : Nat) (e floor : Int) : Int :=
  let n : Int := (m * Nat.pow 2 (e - floor).toNat : Nat)
  if negative then -n else n

/-- The rounded sum. Equal infinities keep their sign, opposite ones give no number, and an exact
zero is negative only when both terms are. -/
def add (x y : Binary64) : Binary64 :=
  match x.shape, y.shape with
  | .notANumber, _ | _, .notANumber => nan
  | .infinite a, .infinite b => if a = b then infinity a else nan
  | .infinite a, _ => infinity a
  | _, .infinite b => infinity b
  | .finite sa ma ea, .finite sb mb eb =>
    let floor := min ea eb
    let sum := scaled sa ma ea floor + scaled sb mb eb floor
    if sum = 0 then zero (sa && sb)
    else if 0 ≤ floor then ofRatio (sum < 0) (sum.natAbs * Nat.pow 2 floor.toNat) 1
    else ofRatio (sum < 0) sum.natAbs (Nat.pow 2 (-floor).toNat)

/-- Numeric order: false when either side is not a number, and both zeros are equal. -/
def lt (x y : Binary64) : Bool :=
  match x.shape, y.shape with
  | .notANumber, _ | _, .notANumber => false
  | .infinite a, .infinite b => a && !b
  | .infinite a, _ => a
  | _, .infinite b => !b
  | .finite sa ma ea, .finite sb mb eb =>
    let floor := min ea eb
    scaled sa ma ea floor < scaled sb mb eb floor

/-- The double with the value of a finite number read from its own shape. -/
def ofParts (negative : Bool) (m : Nat) (e : Int) : Binary64 :=
  if 0 ≤ e then ofRatio negative (m * Nat.pow 2 e.toNat) 1
  else ofRatio negative m (Nat.pow 2 (-e).toNat)

/-- The value with the other sign. -/
def neg (x : Binary64) : Binary64 := ofMagnitudeBits (!x.isNegative) (x.bits.toNat % Nat.pow 2 63)

/-- The rounded product. An infinity times zero is no number. -/
def mul (x y : Binary64) : Binary64 :=
  match x.shape, y.shape with
  | .notANumber, _ | _, .notANumber => nan
  | .infinite a, .infinite b => infinity (a != b)
  | .infinite a, .finite b m _ | .finite a m _, .infinite b =>
    if m = 0 then nan else infinity (a != b)
  | .finite a m e, .finite b n f => ofParts (a != b) (m * n) (e + f)

/-- Widens a single-precision bit pattern; every such value is a double. -/
def ofSingleBits (bits : Nat) : Binary64 :=
  let negative := bits / Nat.pow 2 31 % 2 == 1
  let exponent : Nat := bits / Nat.pow 2 23 % 256
  let fraction := bits % Nat.pow 2 23
  if exponent = 255 then if fraction = 0 then infinity negative else nan
  else if exponent = 0 then ofParts negative fraction (-149)
  else ofParts negative (Nat.pow 2 23 + fraction) ((exponent : Int) - 150)

/-- The sixteen lowercase digits of the bits are the transport form; this reads the bits back. -/
def ofBits (n : Nat) : Binary64 := ⟨.ofNat n⟩

end Binary64

end TrieFeed
