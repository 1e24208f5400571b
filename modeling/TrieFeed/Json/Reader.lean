import TrieFeed.Json.Basic
import TrieFeed.Number.Numeral
/-!
# Reading documents

A strict reader: four blank characters, no leading zeros, no trailing commas, paired surrogate
escapes only, and a bound on nesting. A name given twice keeps its first place and its last value;
the fields as written are kept for readers that refuse such names.
-/
namespace TrieFeed.Json

/-- How deep lists and objects may nest. -/
def maxNesting : Nat := 127

def isSpace (c : Char) : Bool := c = ' ' || c = '\n' || c = '\t' || c = '\r'

def skipSpace (cs : List Char) : List Char := cs.dropWhile isSpace

def hexValue? (c : Char) : Option Nat :=
  if '0' ≤ c ∧ c ≤ '9' then some (c.toNat - 48)
  else if 'a' ≤ c ∧ c ≤ 'f' then some (c.toNat - 87)
  else if 'A' ≤ c ∧ c ≤ 'F' then some (c.toNat - 55)
  else none

/-- Four hexadecimal digits. -/
def hex4? (a b c d : Char) : Option Nat := do
  let a ← hexValue? a
  let b ← hexValue? b
  let c ← hexValue? c
  let d ← hexValue? d
  return ((a * 16 + b) * 16 + c) * 16 + d

def simpleEscape? : Char → Option Char
  | '"' => some '"'
  | '\\' => some '\\'
  | '/' => some '/'
  | 'b' => some (.ofNat 8)
  | 'f' => some (.ofNat 12)
  | 'n' => some '\n'
  | 'r' => some '\r'
  | 't' => some '\t'
  | _ => none

/-- The rest of a string after its opening quote, with what follows the closing one. -/
def string? : List Char → Option (List Char × List Char)
  | [] => none
  | '"' :: rest => some ([], rest)
  | '\\' :: 'u' :: a :: b :: c :: d :: rest =>
    match hex4? a b c d with
    | none => none
    | some high =>
      if high < 0xd800 ∨ 0xdfff < high then
        (string? rest).map fun (s, rest) => (.ofNat high :: s, rest)
      else if 0xdc00 ≤ high then none
      else match rest with
        | '\\' :: 'u' :: a :: b :: c :: d :: rest =>
          match hex4? a b c d with
          | none => none
          | some low =>
            if 0xdc00 ≤ low ∧ low ≤ 0xdfff then
              (string? rest).map fun (s, rest) =>
                (.ofNat (0x10000 + (high - 0xd800) * 1024 + (low - 0xdc00)) :: s, rest)
            else none
        | _ => none
  | '\\' :: c :: rest =>
    (simpleEscape? c).bind fun c => (string? rest).map fun (s, rest) => (c :: s, rest)
  | c :: rest =>
    if c.toNat < 32 ∨ c = '\\' then none else (string? rest).map fun (s, rest) => (c :: s, rest)

/-- Digits kept while they fit in sixty-four bits, and how many did not. -/
structure Significand where
  value : Nat
  dropped : Nat

/-- Whole digits: from the first that does not fit on, each counts as a power of ten. -/
def Significand.pushWhole (s : Significand) (c : Char) : Significand :=
  let next := 10 * s.value + Numeral.digitValue c
  if s.dropped = 0 ∧ next < Nat.pow 2 64 then { s with value := next }
  else { s with dropped := s.dropped + 1 }

/-- Fraction digits: those after the first that does not fit are ignored. -/
def pushFraction : List Char → Nat → Int → Nat × Int
  | [], value, exponent => (value, exponent)
  | c :: cs, value, exponent =>
    let next := 10 * value + Numeral.digitValue c
    if next < Nat.pow 2 64 then pushFraction cs next (exponent - 1) else (value, exponent)

/-- The double nearest to `10 ^ n`. -/
def powerOfTen (n : Nat) : Binary64 := .ofScientific false 1 n

/-- Product or quotient of two finite doubles, rounded once. -/
def scaleBy (x : Binary64) (n : Nat) (divide : Bool) : Binary64 :=
  match x.shape, (powerOfTen n).shape with
  | .finite _ m e, .finite _ p q =>
    if divide then
      let d := e - q
      if 0 ≤ d then .ofRatio false (m * Nat.pow 2 d.toNat) p
      else .ofRatio false m (p * Nat.pow 2 (-d).toNat)
    else .ofParts false (m * p) (e + q)
  | _, _ => x

/-- Scales a magnitude by a power of ten in steps that stay inside the range of doubles. -/
def scaleTo? (x : Binary64) (exponent : Int) : Nat → Option Binary64
  | 0 => some x
  | fuel + 1 =>
    if exponent.natAbs ≤ 308 then
      let y := scaleBy x exponent.natAbs (exponent < 0)
      if y.isFinite then some y else none
    else if x = .zero false then some x
    else if 0 ≤ exponent then none
    else scaleTo? (scaleBy x 308 true) (exponent + 308) fuel

/-- A number written with a point or an exponent, or too large for a word: its digits are rounded
to a double, and that is scaled by a power of ten and rounded again. -/
def double? (negative : Bool) (whole fraction : List Char) (exponent : Int) : Option Json :=
  let s := whole.foldl Significand.pushWhole ⟨0, 0⟩
  let (value, power) := pushFraction fraction s.value s.dropped
  (scaleTo? (.ofInt value) (power + exponent) 8).map fun x =>
    .float (if negative then .ofMagnitudeBits true x.bits.toNat else x)

/-- The exponent of a number, or nothing where there is none. An exponent too long for a word of
thirty-two bits is clamped: no significand reaches back from there. -/
def exponentPart? : List Char → Option (Option Int × List Char)
  | [] => some (none, [])
  | c :: rest =>
    if c = 'e' ∨ c = 'E' then
      let (negative, rest) : Bool × List Char := match rest with
        | '+' :: rest => (false, rest)
        | '-' :: rest => (true, rest)
        | rest => (false, rest)
      let digits := rest.takeWhile Numeral.isDigit
      if digits = [] then none
      else
        let n : Int := Numeral.ofDigits digits
        let n := min n (Nat.pow 2 31 - 1)
        some (some (if negative then -n else n), rest.dropWhile Numeral.isDigit)
    else some (none, c :: rest)

/-- The point and the digits after it, or nothing where there is none. -/
def fractionPart? : List Char → Option (Option (List Char) × List Char)
  | '.' :: rest =>
    let digits := rest.takeWhile Numeral.isDigit
    if digits = [] then none else some (some digits, rest.dropWhile Numeral.isDigit)
  | rest => some (none, rest)

/-- A number after its sign. -/
def numeral? (negative : Bool) (cs : List Char) : Option (Json × List Char) := do
  let whole := cs.takeWhile Numeral.isDigit
  let rest := cs.dropWhile Numeral.isDigit
  guard (whole ≠ [] ∧ (whole.length = 1 ∨ whole.head? ≠ some '0'))
  let (fraction, rest) ← fractionPart? rest
  let (exponent, rest) ← exponentPart? rest
  match fraction, exponent with
  | none, none =>
    let n := Numeral.ofDigits whole
    let signed : Int := if negative then -(n : Int) else n
    if holdsInt signed ∧ ¬(negative ∧ n = 0) then return (.int signed, rest)
    else return (← double? negative whole [] 0, rest)
  | _, _ => return (← double? negative whole (fraction.getD []) (exponent.getD 0), rest)

/-- The rest of a literal name. -/
def literal? : List Char → List Char → Json → Option (Json × List Char)
  | [], rest, value => some (value, rest)
  | w :: ws, c :: cs, value => if w = c then literal? ws cs value else none
  | _ :: _, [], _ => none

mutual

/-- One value, with what follows it. The fuel bounds the steps, `room` the nesting. -/
def value? : Nat → Nat → List Char → Option (Json × List Char)
  | 0, _, _ => none
  | fuel + 1, room, cs =>
    match skipSpace cs with
    | '"' :: rest => (string? rest).map fun (s, rest) => (.text (.ofList s), rest)
    | '[' :: rest =>
      match room with
      | 0 => none
      | room + 1 =>
        match skipSpace rest with
        | ']' :: rest => some (.list [], rest)
        | rest => (items? fuel room rest).map fun (items, rest) => (.list items, rest)
    | '{' :: rest =>
      match room with
      | 0 => none
      | room + 1 =>
        match skipSpace rest with
        | '}' :: rest => some (.object [], rest)
        | rest =>
          (members? fuel room rest).map fun (fields, rest) => (.object fields, rest)
    | '-' :: rest => numeral? true rest
    | 't' :: rest => literal? "rue".toList rest (.bool true)
    | 'f' :: rest => literal? "alse".toList rest (.bool false)
    | 'n' :: rest => literal? "ull".toList rest .null
    | rest => numeral? false rest

/-- The items of a list up to its end. -/
def items? : Nat → Nat → List Char → Option (List Json × List Char)
  | 0, _, _ => none
  | fuel + 1, room, cs =>
    match value? fuel room cs with
    | none => none
    | some (item, rest) =>
      match skipSpace rest with
      | ',' :: rest => (items? fuel room rest).map fun (items, rest) => (item :: items, rest)
      | ']' :: rest => some ([item], rest)
      | _ => none

/-- The fields of an object up to its end. -/
def members? : Nat → Nat → List Char → Option (List (String × Json) × List Char)
  | 0, _, _ => none
  | fuel + 1, room, cs =>
    match skipSpace cs with
    | '"' :: rest =>
      match string? rest with
      | none => none
      | some (name, rest) =>
        match skipSpace rest with
        | ':' :: rest =>
          match value? fuel room rest with
          | none => none
          | some (value, rest) =>
            match skipSpace rest with
            | ',' :: rest =>
              (members? fuel room rest).map fun (fields, rest) =>
                ((.ofList name, value) :: fields, rest)
            | '}' :: rest => some ([(.ofList name, value)], rest)
            | _ => none
        | _ => none
    | _ => none

end

/-- Reads a whole document of at most `nesting` levels, every field as it is written. -/
def readNested? (nesting : Nat) (text : String) : Option Json :=
  let cs := text.toList
  match value? (2 * cs.length + 2) nesting cs with
  | some (value, rest) => if (skipSpace rest).isEmpty then some value else none
  | none => none

/-- Reads a whole document, keeping names that are given twice. -/
def readWritten? (text : String) : Option Json := readNested? maxNesting text

mutual

/-- Gives each name its first place and its last value, at every level. -/
def settled : Json → Json
  | .list items => .list (settledItems items)
  | .object fields => .object (Fields.ofPairs (settledFields fields))
  | .null => .null
  | .bool b => .bool b
  | .int n => .int n
  | .float x => .float x
  | .text s => .text s

def settledItems : List Json → List Json
  | [] => []
  | item :: rest => settled item :: settledItems rest

def settledFields : List (String × Json) → List (String × Json)
  | [] => []
  | (name, value) :: rest => (name, settled value) :: settledFields rest

end

/-- Reads a whole document. -/
def read? (text : String) : Option Json := (readWritten? text).map settled

end TrieFeed.Json
