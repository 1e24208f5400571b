import TrieFeed.Codec.Hex
import TrieFeed.Sql.Cell
/-!
# Lexemes of statements

Words, literals, parameters and marks, each with the text that starts at it, from which the name of
a result's column is taken. Comments and blanks stand between lexemes and mean nothing.
-/
namespace TrieFeed.Sql

inductive Token where
  | word (s : String)
  /-- A name in quotes, which is never a keyword. -/
  | name (s : String)
  | literal (c : Cell)
  | parameter (i : Nat)
  | mark (s : String)
  /-- Text that is no lexeme. -/
  | unknown
deriving DecidableEq, Inhabited

structure Lexeme where
  token : Token
  /-- The text from the start of the lexeme on. -/
  start : List Char
  /-- The text behind the lexeme. -/
  stop : List Char
deriving Inhabited

namespace Lexeme

def isBlank (c : Char) : Bool := c.isWhitespace || c.toNat = 12

def isWordStart (c : Char) : Bool := c.isAlpha || c = '_' || 0x80 ≤ c.toNat

def isWordChar (c : Char) : Bool := isWordStart c || Numeral.isDigit c || c = '$'

/-- The text up to the closing quote, of which two stand for one, and what follows. -/
def quoted? (quote : Char) : List Char → Option (List Char × List Char)
  | [] => none
  | [c] => if c = quote then some ([], []) else none
  | c :: d :: rest =>
    if c = quote then
      if d = quote then (quoted? quote rest).map fun (s, r) => (quote :: s, r)
      else some ([], d :: rest)
    else (quoted? quote (d :: rest)).map fun (s, r) => (c :: s, r)

/-- What follows a comment that has an end. -/
def afterComment : List Char → List Char
  | [] => []
  | '*' :: '/' :: rest => rest
  | _ :: rest => afterComment rest

/-- An exponent at the front. -/
def exponent : List Char → List Char
  | c :: rest =>
    if c = 'e' ∨ c = 'E' then
      let (sign, digits) := match rest with
        | '+' :: ds => (['+'], ds)
        | '-' :: ds => (['-'], ds)
        | ds => ([], ds)
      let ds := digits.takeWhile Numeral.isDigit
      if ds = [] then [] else c :: (sign ++ ds)
    else []
  | [] => []

/-- The characters of a number at the front. -/
def numeral (cs : List Char) : List Char :=
  let whole := cs.takeWhile Numeral.isDigit
  let rest := cs.dropWhile Numeral.isDigit
  let fraction := match rest with
    | '.' :: ds => '.' :: ds.takeWhile Numeral.isDigit
    | _ => []
  whole ++ fraction ++ exponent (rest.drop fraction.length)

/-- Whole numbers of a word are numbers of that kind, and all others doubles. -/
def numberOf? (cs : List Char) : Option Cell :=
  match Numeral.signedWord? 64 cs with
  | some n => some (.int n)
  | none => (Numeral.double? cs).map .real

def twoCharMarks : List String := ["==", "<>", "!=", "<=", ">=", "||"]

def oneCharMarks : List Char := "(),=<>*+-/%;.".toList

/-- A mark at the front. -/
def mark? (cs : List Char) : Option (String × List Char) :=
  let two := String.ofList (cs.take 2)
  if twoCharMarks.contains two then some (two, cs.drop 2)
  else match cs with
    | c :: rest => if oneCharMarks.contains c then some (.ofList [c], rest) else none
    | [] => none

/-- The token at the front of a text that starts with no blank and no comment. A question mark alone
is the parameter after those before it, and a number says which one it is. -/
def token? (parameters : Nat) (c : Char) (cs : List Char) : Option (Token × List Char) :=
  if (c = 'x' ∨ c = 'X') ∧ cs.head? = some '\'' then
    (quoted? '\'' (cs.drop 1)).bind fun (s, rest) =>
      (Hex.pairs 0 (Utf8.encode (.ofList s))).toOption.map fun b => (.literal (.blob b), rest)
  else if isWordStart c then
    some (.word (.ofList (c :: cs.takeWhile isWordChar)), cs.dropWhile isWordChar)
  else if Numeral.isDigit c ∨ (c = '.' ∧ (cs.head?.map Numeral.isDigit).getD false) then
    let n := numeral (c :: cs)
    (numberOf? n).map fun cell => (.literal cell, (c :: cs).drop n.length)
  else if c = '\'' then
    (quoted? c cs).map fun (s, rest) => (.literal (.text (.ofList s)), rest)
  else if c = '"' ∨ c.toNat = 96 then
    (quoted? c cs).map fun (s, rest) => (.name (.ofList s), rest)
  else if c = '[' then
    (Text.cutAt? ']' cs).map fun (s, rest) => (.name (.ofList s), rest)
  else if c = '?' ∨ c = '$' then
    let digits := cs.takeWhile Numeral.isDigit
    if digits = [] then if c = '?' then some (.parameter parameters, cs) else none
    else if Numeral.ofDigits digits = 0 then none
    else some (.parameter (Numeral.ofDigits digits - 1), cs.dropWhile Numeral.isDigit)
  else (mark? (c :: cs)).map fun (m, rest) => (.mark m, rest)

/-- The lexemes of a text, up to the first place where there is none; `fuel` bounds the steps and
`parameters` counts those without a number. -/
def scanFrom : Nat → Nat → List Char → List Lexeme
  | _, _, [] => []
  | 0, _, _ => []
  | fuel + 1, parameters, c :: cs =>
    if isBlank c then scanFrom fuel parameters cs
    else match c, cs with
      | '-', '-' :: rest => scanFrom fuel parameters (rest.dropWhile (· ≠ '\n'))
      | '/', '*' :: rest => scanFrom fuel parameters (afterComment rest)
      | c, cs =>
        match token? parameters c cs with
        | none => [⟨.unknown, c :: cs, []⟩]
        | some (token, rest) =>
          let next := if token = .parameter parameters ∧ cs.head?.all (!Numeral.isDigit ·) then
            parameters + 1 else parameters
          ⟨token, c :: cs, rest⟩ :: scanFrom fuel next rest

def scan (sql : String) : List Lexeme := scanFrom sql.length 0 sql.toList

/-- The lexemes of the statements between semicolons. -/
def statements : List Lexeme → List (List Lexeme)
  | [] => [[]]
  | l :: rest =>
    if l.token = .mark ";" then [] :: statements rest
    else match statements rest with
      | [] => [[l]]
      | s :: others => (l :: s) :: others

/-- The text of the lexemes in front of the rest. -/
def textBefore (ts rest : List Lexeme) : String :=
  match ts.head?, ts[ts.length - rest.length - 1]? with
  | some first, some last => .ofList (first.start.take (first.start.length - last.stop.length))
  | _, _ => ""

end Lexeme

end TrieFeed.Sql
