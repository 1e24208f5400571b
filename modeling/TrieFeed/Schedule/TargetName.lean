import TrieFeed.Text.Blank
import TrieFeed.Time.Calendar
/-!
# Target names

A target's name is a pattern whose marks are replaced one kind after the other: the provider, then
date and time, date, timestamp and epoch. Text that a replacement brings in is open to the later
ones.
-/
namespace TrieFeed.Schedule

/-- The pattern of a plan that has none. -/
def defaultPattern : String := "\x7bprovider\x7d-\x7bdate\x7d"

/-- The number of the chain's epoch at an instant, counted in spans of five days from the start of
epoch 208. Both divisions go toward zero. -/
def epochAt (now : Int) : Int := 208 + ((now - 1596000000).tdiv 86400).tdiv 5

/-- A name between braces. -/
def marked (name : String) : String := "\x7b" ++ name ++ "\x7d"

def dateText (now : Int) : String := (Time.dateOf (Time.dayOf now)).text

/-- Each mark with the text that replaces it, in order of replacement. -/
def replacements (provider : String) (now : Int) : List (String × String) :=
  [(marked "provider", provider),
    (marked "datetime", dateText now ++ "T" ++ (Time.clockOf now).text),
    (marked "date", dateText now),
    (marked "timestamp", toString now),
    (marked "epoch", toString (epochAt now))]

def targetName (pattern provider : String) (now : Int) : String :=
  let pattern := if Text.allBlank pattern then defaultPattern else pattern
  (replacements provider now).foldl (fun text (mark, new) => Text.replaceAll mark new text) pattern

end TrieFeed.Schedule
