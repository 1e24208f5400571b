import TrieFeed.Text.Lines
import TrieFeed.Value.Basic
/-!
# Delimited rows

Each line is a row of cells, trimmed and kept as text. Quoting has no meaning. With a header, the
first line names the columns, and cells past the last name are dropped.
-/
namespace TrieFeed

/-- How rows are written. -/
structure RowFormat where
  delimiter : String
  header : Bool
deriving DecidableEq

namespace RowFormat

def default : RowFormat := ⟨",", true⟩

instance : Inhabited RowFormat := ⟨default⟩

def cells (format : RowFormat) (line : List Char) : List String :=
  (Text.splitBy format.delimiter.toList line).map fun cell => .ofList (Text.trim cell)

/-- The record of a row under the given names. -/
def named (names cells : List String) : Record :=
  Fields.ofPairs (names.zip (cells.map .text))

/-- The record of a row whose columns are numbered from zero. -/
def numbered (cells : List String) : Record :=
  Fields.ofPairs (cells.mapIdx fun i cell => (s!"col{i}", .text cell))

def records (format : RowFormat) (text : String) : List Record :=
  let rows := (Text.linesOf text.toList).map format.cells
  if format.header then
    match rows with
    | [] => []
    | names :: rows => rows.map (named names)
  else rows.map numbered

end RowFormat

end TrieFeed
