import TrieFeed.Text.Unprintable
/-!
# Quoted texts

A quoted text shows every character that has a glyph and escapes the rest: the usual letters after a
backslash, else the code point in lowercase hexadecimal between braces. Single characters stand
between single quotes and escape those instead of the double one.
-/
namespace TrieFeed.Text

/-- The code point of a character between braces. -/
def codePoint (c : Char) : List Char :=
  ['\\', 'u', '\x7b'] ++ Nat.toDigits 16 c.toNat ++ ['\x7d']

/-- A character between quotes of the given kind. -/
def quotedChar (delimiter c : Char) : List Char :=
  if c = '\\' then ['\\', '\\']
  else if c = delimiter then ['\\', c]
  else if c = '\n' then ['\\', 'n']
  else if c = '\r' then ['\\', 'r']
  else if c = '\t' then ['\\', 't']
  else if c.toNat = 0 then ['\\', '0']
  else if c.toNat < 32 then codePoint c
  else if c.toNat < 127 then [c]
  else if isUnprintable c then codePoint c
  else [c]

def quoted (s : String) : String := .ofList ('"' :: s.toList.flatMap (quotedChar '"') ++ ['"'])

def quotedLetter (c : Char) : String := .ofList ('\'' :: quotedChar '\'' c ++ ['\''])

end TrieFeed.Text
