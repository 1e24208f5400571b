import TrieFeed.Number.Binary64
/-!
# Numerals

Reading whole numbers and doubles from text: an optional sign, then ASCII digits and nothing else.
A double may also have a point, an exponent, or be spelled out as infinite or not a number.
-/
namespace TrieFeed.Numeral

def isDigit (c : Char) : Bool := '0' ≤ c && c ≤ '9'

def digitValue (c : Char) : Nat := c.toNat - 48

/-- The number that decimal digits write. -/
def ofDigits (cs : List Char) : Nat := cs.foldl (fun n c => 10 * n + digitValue c) 0

/-- A natural number, written with digits alone. -/
def natural? (cs : List Char) : Option Nat :=
  if cs ≠ [] ∧ cs.all isDigit then some (ofDigits cs) else none

/-- A natural number that may carry a plus sign. -/
def unsigned? : List Char → Option Nat
  | '+' :: cs => natural? cs
  | cs => natural? cs

/-- A whole number with an optional sign. -/
def integer? : List Char → Option Int
  | '+' :: cs => (natural? cs).map fun n => (n : Int)
  | '-' :: cs => (natural? cs).map fun n => -(n : Int)
  | cs => (natural? cs).map fun n => (n : Int)

/-- Whether a number fits in a signed word of so many bits. -/
def fitsSigned (bits : Nat) (n : Int) : Bool :=
  -(Nat.pow 2 (bits - 1)) ≤ n && n < Nat.pow 2 (bits - 1)

/-- A whole number that fits in a signed word of so many bits. -/
def signedWord? (bits : Nat) (cs : List Char) : Option Int :=
  (integer? cs).filter (fitsSigned bits)

/-- A natural number that fits in an unsigned word of so many bits. -/
def unsignedWord? (bits : Nat) (cs : List Char) : Option Nat :=
  (unsigned? cs).filter (· < Nat.pow 2 bits)

/-- A number cut to the range of a signed word. -/
def clampSigned (bits : Nat) (n : Int) : Int :=
  max (-(Nat.pow 2 (bits - 1))) (min (Nat.pow 2 (bits - 1) - 1) n)

/-- Digits with a point and an exponent, before any rounding. -/
structure Scientific where
  digits : Nat
  exponent : Int

/-- The exponent part of a numeral; nothing at all counts as exponent zero. -/
def exponent? : List Char → Option Int
  | [] => some 0
  | c :: cs => if c = 'e' ∨ c = 'E' then integer? cs else none

/-- Digits, an optional point among or around them, and an optional exponent. -/
def scientific? (cs : List Char) : Option Scientific :=
  let whole := cs.takeWhile isDigit
  let rest := cs.dropWhile isDigit
  let (fraction, rest) : List Char × List Char := match rest with
    | '.' :: tail => (tail.takeWhile isDigit, tail.dropWhile isDigit)
    | other => ([], other)
  if whole.isEmpty && fraction.isEmpty then none
  else (exponent? rest).map fun e =>
    ⟨ofDigits (whole ++ fraction), e - (fraction.length : Int)⟩

def magnitude? (negative : Bool) (cs : List Char) : Option Binary64 :=
  let word := String.ofList (cs.map Char.toLower)
  if word = "inf" ∨ word = "infinity" then some (.infinity negative)
  else if word = "nan" then some .nan
  else (scientific? cs).map fun s => .ofScientific negative s.digits s.exponent

/-- A double: an optional sign, then a numeral or a word for a value that is not finite. -/
def double? : List Char → Option Binary64
  | '+' :: cs => magnitude? false cs
  | '-' :: cs => magnitude? true cs
  | cs => magnitude? false cs

end TrieFeed.Numeral
