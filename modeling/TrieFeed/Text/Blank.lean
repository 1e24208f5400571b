/-!
# Blank characters

The blank characters are those with the property White_Space, and trimming drops them at both ends.
-/
namespace TrieFeed.Text

/-- The White_Space property. -/
def isBlank (c : Char) : Bool :=
  let n := c.toNat
  (9 ≤ n && n ≤ 13) || n == 0x20 || n == 0x85 || n == 0xa0 || n == 0x1680
    || (0x2000 ≤ n && n ≤ 0x200a) || n == 0x2028 || n == 0x2029 || n == 0x202f || n == 0x205f
    || n == 0x3000

def trimStart (cs : List Char) : List Char := cs.dropWhile isBlank

def trimEnd (cs : List Char) : List Char := (cs.reverse.dropWhile isBlank).reverse

def trim (cs : List Char) : List Char := trimEnd (trimStart cs)

/-- A text without the blanks at both ends. -/
def trimmed (s : String) : String := .ofList (trim s.toList)

/-- Whether a text holds nothing but blanks. -/
def allBlank (s : String) : Bool := s.toList.all isBlank

/-- Maps the capital letters of ASCII alone. -/
def asciiLower (s : String) : String := .ofList (s.toList.map Char.toLower)

/-- What follows `lead` in `cs`, if `cs` starts with it. -/
def after? : List Char → List Char → Option (List Char)
  | [], cs => some cs
  | _ :: _, [] => none
  | l :: ls, c :: cs => if l = c then after? ls cs else none

/-- The parts of a text between separators; there is one more part than there are separators. -/
def splitOn (sep : Char) : List Char → List (List Char)
  | [] => [[]]
  | c :: cs =>
    if c = sep then [] :: splitOn sep cs
    else match splitOn sep cs with
      | [] => [[c]]
      | part :: parts => (c :: part) :: parts

/-- Cuts at the first separator. -/
def cutAt? (sep : Char) : List Char → Option (List Char × List Char)
  | [] => none
  | c :: cs =>
    if c = sep then some ([], cs)
    else (cutAt? sep cs).map fun (before, rest) => (c :: before, rest)

/-- Whether `part` occurs in `cs`. -/
def occurs (part : List Char) : List Char → Bool
  | [] => part.isEmpty
  | c :: cs => (after? part (c :: cs)).isSome || occurs part cs

/-- Whether one text holds another. -/
def contains (whole part : String) : Bool := occurs part.toList whole.toList

/-- Replaces every occurrence from the left; `skip` counts characters of a match still to drop. -/
def replaceFrom (part new : List Char) : List Char → Nat → List Char
  | [], _ => []
  | _ :: cs, skip + 1 => replaceFrom part new cs skip
  | c :: cs, 0 =>
    if (after? part (c :: cs)).isSome then new ++ replaceFrom part new cs (part.length - 1)
    else c :: replaceFrom part new cs 0

/-- Replaces every occurrence of a nonempty part. -/
def replaceAll (part new s : String) : String :=
  .ofList (replaceFrom part.toList new.toList s.toList 0)

end TrieFeed.Text
