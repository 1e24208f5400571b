import TrieFeed.Json.Reader
import TrieFeed.Number.Numeral
import TrieFeed.Time.Calendar
import TrieFeed.Toml.Basic
/-!
# TOML scalars

Texts on one line or several, with escapes or without, whole numbers in four bases, doubles, truth
values, and moments. Every reader hands back what follows.
-/
namespace TrieFeed.Toml

/-- Reads something at the start of a text. -/
abbrev Reader (α : Type) := List Char → Option (α × List Char)

def isSpace (c : Char) : Bool := c = ' ' || c = '\t'

def skipSpace (cs : List Char) : List Char := cs.dropWhile isSpace

/-- Everything but control characters, of which only the tab may stand in texts and comments. -/
def isPlain (c : Char) : Bool := c = '\t' || (32 ≤ c.toNat && c.toNat ≠ 127)

/-- What follows the end of a line. -/
def afterNewline? : List Char → Option (List Char)
  | '\n' :: rest => some rest
  | '\r' :: '\n' :: rest => some rest
  | _ => none

/-! ## Texts -/

def simpleEscape? : Char → Option Char
  | 'b' => some (.ofNat 8)
  | 't' => some '\t'
  | 'n' => some '\n'
  | 'f' => some (.ofNat 12)
  | 'r' => some '\r'
  | '"' => some '"'
  | '\\' => some '\\'
  | _ => none

/-- The character of hexadecimal digits, if there is one. -/
def hexChar? (digits : List Char) : Option Char := do
  let values ← digits.mapM Json.hexValue?
  let n := values.foldl (fun n d => 16 * n + d) 0
  if n.isValidChar then some (.ofNat n) else none

/-- The character after a backslash. -/
def escape? : Reader Char
  | 'u' :: rest =>
    if rest.length < 4 then none else (hexChar? (rest.take 4)).map fun c => (c, rest.drop 4)
  | 'U' :: rest =>
    if rest.length < 8 then none else (hexChar? (rest.take 8)).map fun c => (c, rest.drop 8)
  | c :: rest => (simpleEscape? c).map fun c => (c, rest)
  | [] => none

/-- A text on one line with escapes, after its opening quote. -/
def basic? : Nat → Reader (List Char)
  | 0, _ => none
  | fuel + 1, cs =>
    match cs with
    | [] => none
    | '"' :: rest => some ([], rest)
    | '\\' :: rest =>
      (escape? rest).bind fun (c, rest) =>
        (basic? fuel rest).map fun (s, rest) => (c :: s, rest)
    | c :: rest =>
      if isPlain c then (basic? fuel rest).map fun (s, rest) => (c :: s, rest) else none

/-- A text on one line without escapes, after its opening quote. -/
def literal? : Reader (List Char)
  | [] => none
  | '\'' :: rest => some ([], rest)
  | c :: rest => if isPlain c then (literal? rest).map fun (s, rest) => (c :: s, rest) else none

/-- Up to two quotes that stand directly before three closing ones belong to the text. -/
def lastQuotes (quote : Char) (rest : List Char) : List Char × List Char :=
  let count := min 2 (rest.takeWhile (· = quote)).length
  (rest.take count, rest.drop count)

/-- Skips blanks and ends of lines. -/
def skipBreaks : List Char → List Char
  | '\n' :: rest => skipBreaks rest
  | '\r' :: '\n' :: rest => skipBreaks rest
  | ' ' :: rest => skipBreaks rest
  | '\t' :: rest => skipBreaks rest
  | cs => cs

/-- What follows a backslash at the end of a line; further blanks and ends of lines are skipped. -/
def continued? (cs : List Char) : Option (List Char) :=
  (afterNewline? (skipSpace cs)).map skipBreaks

/-- A text on several lines, after its opening quotes. -/
def lines? (quote : Char) (escapes : Bool) : Nat → Reader (List Char)
  | 0, _ => none
  | fuel + 1, cs =>
    let more (c : Char) (rest : List Char) : Option (List Char × List Char) :=
      (lines? quote escapes fuel rest).map fun (s, rest) => (c :: s, rest)
    match afterNewline? cs, cs with
    | some rest, _ => more '\n' rest
    | none, [] => none
    | none, c :: rest =>
      if c = quote then
        match rest with
        | a :: b :: rest' =>
          if a = quote ∧ b = quote then some (lastQuotes quote rest') else more c rest
        | _ => none
      else if c = '\\' && escapes then
        match continued? rest with
        | some rest => lines? quote escapes fuel rest
        | none => (escape? rest).bind fun (c, rest) => more c rest
      else if isPlain c then more c rest
      else none

/-- A text on several lines; an end of line directly after the opening quotes is not part of it. -/
def openedLines? (quote : Char) (escapes : Bool) (cs : List Char) :
    Option (List Char × List Char) :=
  lines? quote escapes (cs.length + 1) ((afterNewline? cs).getD cs)

def string? : Reader (List Char)
  | '"' :: '"' :: '"' :: rest => openedLines? '"' true rest
  | '"' :: rest => basic? (rest.length + 1) rest
  | '\'' :: '\'' :: '\'' :: rest => openedLines? '\'' false rest
  | '\'' :: rest => literal? rest
  | _ => none

/-! ## Numbers -/

/-- Further digits, with at most one underscore before each. -/
def moreDigits? (isDigit : Char → Bool) : Reader (List Char)
  | [] => some ([], [])
  | '_' :: c :: rest =>
    if isDigit c then (moreDigits? isDigit rest).map fun (ds, rest) => (c :: ds, rest) else none
  | c :: rest =>
    if isDigit c then (moreDigits? isDigit rest).map fun (ds, rest) => (c :: ds, rest)
    else if c = '_' then none
    else some ([], c :: rest)

def digits? (isDigit : Char → Bool) : Reader (List Char)
  | [] => none
  | c :: rest =>
    if isDigit c then (moreDigits? isDigit rest).map fun (ds, rest) => (c :: ds, rest) else none

/-- The sign as written. -/
def sign : List Char → List Char × List Char
  | '+' :: rest => (['+'], rest)
  | '-' :: rest => (['-'], rest)
  | cs => ([], cs)

/-- A whole number in some base, without a sign. -/
def based? (base : Nat) (cs : List Char) : Option (Toml × List Char) :=
  let isDigit (c : Char) : Bool := (Json.hexValue? c).any (· < base)
  (digits? isDigit cs).bind fun (ds, rest) =>
    let n := ds.foldl (fun n c => base * n + (Json.hexValue? c).getD 0) 0
    if Numeral.fitsSigned 64 n then some (.int n, rest) else none

/-- Digits without leading zeros. -/
def whole? : Reader (List Char)
  | '0' :: rest => some (['0'], rest)
  | cs => digits? Numeral.isDigit cs

/-- The exponent, if one is written. -/
def exponent? : Reader (List Char)
  | c :: rest =>
    if c = 'e' ∨ c = 'E' then
      let (s, rest) := sign rest
      (digits? Numeral.isDigit rest).map fun (ds, rest) => ('e' :: s ++ ds, rest)
    else some ([], c :: rest)
  | [] => some ([], [])

/-- The point and what follows it, if one is written. -/
def fraction? : Reader (List Char)
  | '.' :: rest => (digits? Numeral.isDigit rest).map fun (ds, rest) => ('.' :: ds, rest)
  | cs => some ([], cs)

/-- Doubles may not be too large, but may be too small. -/
def doubleOf? (cs : List Char) : Option Toml :=
  match Numeral.double? cs with
  | none => none
  | some x => if x.bits = (Binary64.infinity false).bits then none else some (.float x)

/-- A number in decimal digits. -/
def decimal? (cs : List Char) : Option (Toml × List Char) := do
  let (s, rest) := sign cs
  let (whole, rest) ← whole? rest
  let (fraction, rest) ← fraction? rest
  let (exponent, rest) ← exponent? rest
  if fraction.isEmpty && exponent.isEmpty then
    return (.int (← Numeral.signedWord? 64 (s ++ whole)), rest)
  else return (← doubleOf? (s ++ whole ++ fraction ++ exponent), rest)

/-- A word for a double that is not finite. -/
def special? (cs : List Char) : Option (Toml × List Char) :=
  let (s, rest) := sign cs
  match rest with
  | 'i' :: 'n' :: 'f' :: rest => some (.float (.infinity (s = ['-'])), rest)
  | 'n' :: 'a' :: 'n' :: rest => some (.float .nan, rest)
  | _ => none

def number? (cs : List Char) : Option (Toml × List Char) :=
  match cs with
  | '0' :: 'x' :: rest => based? 16 rest
  | '0' :: 'o' :: rest => based? 8 rest
  | '0' :: 'b' :: rest => based? 2 rest
  | _ => (special? cs).or (decimal? cs)

/-! ## Moments -/

/-- Exactly so many digits, with the number that they write. -/
def fixedDigits? (count : Nat) (cs : List Char) : Option (List Char × Nat × List Char) :=
  let ds := cs.take count
  if ds.length = count ∧ ds.all Numeral.isDigit then some (ds, Numeral.ofDigits ds, cs.drop count)
  else none

/-- Two digits within bounds. -/
def pair? (low high : Nat) (cs : List Char) : Option (List Char × Nat × List Char) :=
  (fixedDigits? 2 cs).filter fun (_, n, _) => low ≤ n && n ≤ high

def date? (cs : List Char) : Option (List Char × List Char) :=
  match fixedDigits? 4 cs with
  | some (y, year, '-' :: rest) =>
    match pair? 1 12 rest with
    | some (m, month, '-' :: rest) =>
      (pair? 1 (Time.daysIn year month) rest).map fun (d, _, rest) =>
        (y ++ '-' :: m ++ '-' :: d, rest)
    | _ => none
  | _ => none

/-- The fraction of a second to nine digits, without zeros at its end. -/
def secondFraction (cs : List Char) : List Char × List Char :=
  match cs with
  | '.' :: rest =>
    let ds := rest.takeWhile Numeral.isDigit
    let kept := ((ds.take 9).reverse.dropWhile (· = '0')).reverse
    if ds.isEmpty then ([], cs)
    else (if kept.isEmpty then [] else '.' :: kept, rest.drop ds.length)
  | _ => ([], cs)

def clock? (cs : List Char) : Option (List Char × List Char) :=
  match pair? 0 23 cs with
  | some (h, _, ':' :: rest) =>
    match pair? 0 59 rest with
    | some (m, _, ':' :: rest) =>
      (pair? 0 60 rest).map fun (s, _, rest) =>
        let (fraction, rest) := secondFraction rest
        (h ++ ':' :: m ++ ':' :: s ++ fraction, rest)
    | _ => none
  | _ => none

/-- The distance from universal time; none at all is written with a plus sign. -/
def offset? : Reader (List Char)
  | c :: rest =>
    if c = 'Z' ∨ c = 'z' then some (['Z'], rest)
    else if c = '+' ∨ c = '-' then
      match pair? 0 23 rest with
      | some (h, hour, ':' :: rest) =>
        (pair? 0 59 rest).map fun (m, minute, rest) =>
          ((if hour = 0 ∧ minute = 0 then '+' else c) :: h ++ ':' :: m, rest)
      | _ => none
    else none
  | [] => none

def moment? (cs : List Char) : Option (Toml × List Char) :=
  let moment (spelling rest : List Char) : Option (Toml × List Char) :=
    some (.moment (.ofList spelling), rest)
  match date? cs with
  | none => (clock? cs).bind fun (clock, rest) => moment clock rest
  | some (date, rest) =>
    match rest with
    | c :: rest' =>
      match (if c = 'T' ∨ c = 't' ∨ c = ' ' then clock? rest' else none) with
      | none => moment date rest
      | some (clock, rest) =>
        match offset? rest with
        | none => moment (date ++ 'T' :: clock) rest
        | some (offset, rest) => moment (date ++ 'T' :: clock ++ offset) rest
    | [] => moment date rest

/-- Anything but lists and tables. -/
def scalar? (cs : List Char) : Option (Toml × List Char) :=
  match cs with
  | 't' :: 'r' :: 'u' :: 'e' :: rest => some (.bool true, rest)
  | 'f' :: 'a' :: 'l' :: 's' :: 'e' :: rest => some (.bool false, rest)
  | _ =>
    ((string? cs).map fun (s, rest) => (Toml.text (.ofList s), rest)).or
      ((moment? cs).or (number? cs))

end TrieFeed.Toml
