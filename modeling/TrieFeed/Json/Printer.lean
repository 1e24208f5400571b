import TrieFeed.Json.Basic
import TrieFeed.Number.Shortest
/-!
# Writing documents

The compact form has no blanks. The wide form puts every item on a line of its own, indented by two
blanks for each level; empty lists and objects stay on one line.
-/
namespace TrieFeed.Json

def hexDigit (n : Nat) : Char := if n < 10 then .ofNat (48 + n) else .ofNat (87 + n)

/-- Only the quote, the backslash and control characters are escaped. -/
def escapeChar (c : Char) : List Char :=
  if c = '"' then ['\\', '"']
  else if c = '\\' then ['\\', '\\']
  else if c = '\n' then ['\\', 'n']
  else if c = '\r' then ['\\', 'r']
  else if c = '\t' then ['\\', 't']
  else if c.toNat = 8 then ['\\', 'b']
  else if c.toNat = 12 then ['\\', 'f']
  else if c.toNat < 32 then
    ['\\', 'u', '0', '0', hexDigit (c.toNat / 16), hexDigit (c.toNat % 16)]
  else [c]

def quote (s : String) : String := .ofList ('"' :: s.toList.flatMap escapeChar ++ ['"'])

mutual

def compact : Json → String
  | .null => "null"
  | .bool b => if b then "true" else "false"
  | .int n => toString n
  | .float x => Shortest.Layout.document.write x
  | .text s => quote s
  | .list items => "[" ++ compactItems items ++ "]"
  | .object fields => "\x7b" ++ compactFields fields ++ "\x7d"

def compactItems : List Json → String
  | [] => ""
  | [item] => compact item
  | item :: rest => compact item ++ "," ++ compactItems rest

def compactFields : List (String × Json) → String
  | [] => ""
  | [(name, value)] => quote name ++ ":" ++ compact value
  | (name, value) :: rest => quote name ++ ":" ++ compact value ++ "," ++ compactFields rest

end

def newline (level : Nat) : String := .ofList ('\n' :: List.replicate (2 * level) ' ')

mutual

def wideAt (level : Nat) : Json → String
  | .list [] => "[]"
  | .list (item :: rest) =>
    "[" ++ wideItems (level + 1) (item :: rest) ++ newline level ++ "]"
  | .object [] => "\x7b\x7d"
  | .object (field :: rest) =>
    "\x7b" ++ wideFields (level + 1) (field :: rest) ++ newline level ++ "\x7d"
  | .null => "null"
  | .bool b => if b then "true" else "false"
  | .int n => toString n
  | .float x => Shortest.Layout.document.write x
  | .text s => quote s

def wideItems (level : Nat) : List Json → String
  | [] => ""
  | [item] => newline level ++ wideAt level item
  | item :: rest => newline level ++ wideAt level item ++ "," ++ wideItems level rest

def wideFields (level : Nat) : List (String × Json) → String
  | [] => ""
  | [(name, value)] => newline level ++ quote name ++ ": " ++ wideAt level value
  | (name, value) :: rest =>
    newline level ++ quote name ++ ": " ++ wideAt level value ++ "," ++ wideFields level rest

end

def wide (value : Json) : String := wideAt 0 value

end TrieFeed.Json
