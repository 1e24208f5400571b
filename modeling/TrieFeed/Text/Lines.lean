import TrieFeed.Text.Blank
/-!
# Lines and cells

A line ends at a line feed, with a carriage return right before it, or at the end of the text. Cells
are what stands between delimiters.
-/
namespace TrieFeed.Text

/-- Drops one carriage return at the end. -/
def dropReturn (line : List Char) : List Char :=
  if line.getLast? = some '\r' then line.dropLast else line

/-- The lines of a text. What follows the last line feed is a line unless it is empty, and keeps a
carriage return at its end. -/
def linesOf : List Char → List (List Char)
  | [] => []
  | cs =>
    let parts := splitOn '\n' cs
    parts.dropLast.map dropReturn ++
      (match parts.getLast? with
        | some (c :: cs) => [c :: cs]
        | _ => [])

/-- The parts between delimiters from the left; `skip` counts characters of one still to drop. -/
def splitFrom (delimiter : List Char) : List Char → Nat → List (List Char)
  | [], _ => [[]]
  | _ :: cs, skip + 1 => splitFrom delimiter cs skip
  | c :: cs, 0 =>
    if (after? delimiter (c :: cs)).isSome then
      [] :: splitFrom delimiter cs (delimiter.length - 1)
    else match splitFrom delimiter cs 0 with
      | [] => [[c]]
      | part :: parts => (c :: part) :: parts

/-- The parts of a text between delimiters. An empty delimiter stands before, between and after all
characters. -/
def splitBy (delimiter cs : List Char) : List (List Char) :=
  if delimiter.isEmpty then [] :: (cs.map ([·]) ++ [[]]) else splitFrom delimiter cs 0

end TrieFeed.Text
