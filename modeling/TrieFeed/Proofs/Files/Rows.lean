import TrieFeed.Proofs.Fields
import TrieFeed.Proofs.Files.Sandbox
import TrieFeed.Proofs.Number.Numeral
import TrieFeed.Proofs.Text.Lines
/-!
# Tables are read back

A table whose cells are trimmed and hold neither the delimiter nor a line feed is read from its
lines as it is: one record for each row, with the cells as texts under the names of the columns,
which are numbered where no header is written.
-/
namespace TrieFeed

open Text (joined ended LineEnd)

/-- A cell that can stand between delimiters. -/
structure Fits (delimiter : Char) (cell : String) : Prop where
  delimiter : delimiter ∉ cell.toList
  feed : '\n' ∉ cell.toList
  trimmed : Text.trimmed cell = cell

instance (delimiter : Char) (cell : String) : Decidable (Fits delimiter cell) :=
  decidable_of_iff (delimiter ∉ cell.toList ∧ '\n' ∉ cell.toList ∧ Text.trimmed cell = cell)
    ⟨fun ⟨hd, hf, ht⟩ => ⟨hd, hf, ht⟩, fun ⟨hd, hf, ht⟩ => ⟨hd, hf, ht⟩⟩

/-- Rows of cells in at least one column, with different names above them or with none. -/
structure Table (delimiter : Char) where
  columns : Nat
  header : Option (List String)
  rows : List (List String)
  columns_pos : 0 < columns
  length_eq : ∀ line ∈ header.toList ++ rows, line.length = columns
  fits : ∀ line ∈ header.toList ++ rows, ∀ cell ∈ line, Fits delimiter cell
  nodup : ∀ names ∈ header, names.Nodup

namespace Table

variable {delimiter : Char}

/-- The rows with the header before them. -/
def lines (table : Table delimiter) : List (List String) := table.header.toList ++ table.rows

def format (table : Table delimiter) : RowFormat :=
  ⟨String.singleton delimiter, table.header.isSome⟩

/-- The names of the columns, numbered from zero if there is no header. -/
def names (table : Table delimiter) : List String :=
  table.header.getD ((List.range table.columns).map fun i => s!"col{i}")

/-- The text of a table; each line may end in its own way. -/
def written (table : Table delimiter) (ends : Nat → LineEnd) : String :=
  .ofList (ended (table.lines.mapIdx fun i cells =>
    (joined delimiter (cells.map String.toList), ends i)))

/-- One record for each row. -/
def records (table : Table delimiter) : List Record :=
  table.rows.map fun cells => table.names.zip (cells.map .text)

end Table

variable {delimiter : Char} {cell : String} {cells : List String}

/-! ## Lines -/

theorem Fits.getLast? (h : Fits delimiter cell) : cell.toList.getLast? ≠ some '\r' := by
  intro hl
  have htrim : Text.trim cell.toList = cell.toList := by
    simpa [Text.trimmed] using congrArg String.toList h.trimmed
  have hblank := Text.getLast?_trim cell.toList '\r' (by rw [htrim, hl]; rfl)
  exact absurd hblank (by decide)

/-- Cells that fit are what splitting and trimming make of their line. -/
theorem RowFormat.cells_joined {format : RowFormat}
    (hd : format.delimiter = String.singleton delimiter) (hne : cells ≠ [])
    (h : ∀ cell ∈ cells, Fits delimiter cell) :
    format.cells (joined delimiter (cells.map String.toList)) = cells := by
  have hlist : format.delimiter.toList = [delimiter] := by simp [hd]
  rw [RowFormat.cells, hlist, Text.splitBy_joined (by simpa using hne), List.map_map]
  · calc
      cells.map ((fun cell => String.ofList (Text.trim cell)) ∘ String.toList) =
          cells.map id := List.map_congr_left fun cell hc => (h cell hc).trimmed
      _ = cells := List.map_id cells
  · intro cs hcs
    obtain ⟨cell, hc, rfl⟩ := List.mem_map.mp hcs
    exact (h cell hc).delimiter

theorem not_mem_joined (hf : delimiter ≠ '\n') (h : ∀ cell ∈ cells, Fits delimiter cell) :
    '\n' ∉ joined delimiter (cells.map String.toList) := by
  intro hm
  rcases Text.mem_joined hm with he | ⟨cs, hcs, hc⟩
  · exact hf he.symm
  · obtain ⟨cell, hcell, rfl⟩ := List.mem_map.mp hcs
    exact (h cell hcell).feed hc

theorem getLast?_joined (hr : delimiter ≠ '\r') (h : ∀ cell ∈ cells, Fits delimiter cell) :
    (joined delimiter (cells.map String.toList)).getLast? ≠ some '\r' := by
  apply Text.getLast?_joined hr
  intro cs hcs
  obtain ⟨cell, hcell, rfl⟩ := List.mem_map.mp hcs
  exact (h cell hcell).getLast?

namespace Table

variable (table : Table delimiter)

theorem linesOf_written (hr : delimiter ≠ '\r') (hf : delimiter ≠ '\n') (ends : Nat → LineEnd) :
    Text.linesOf (table.written ends).toList =
      table.lines.map fun cells => joined delimiter (cells.map String.toList) := by
  rw [written, String.toList_ofList, Text.linesOf_ended]
  · apply List.ext_getElem <;> simp
  · intro line hl
    obtain ⟨i, hi, rfl⟩ := List.mem_mapIdx.mp hl
    have hfits := table.fits _ (List.getElem_mem hi)
    exact ⟨not_mem_joined hf hfits, getLast?_joined hr hfits⟩

theorem cells_written (hr : delimiter ≠ '\r') (hf : delimiter ≠ '\n') (ends : Nat → LineEnd) :
    (Text.linesOf (table.written ends).toList).map table.format.cells = table.lines := by
  rw [linesOf_written table hr hf, List.map_map]
  calc
    table.lines.map (table.format.cells ∘ _) = table.lines.map id := by
      apply List.map_congr_left
      intro cells hc
      have hlength := table.length_eq cells hc
      have hpos := table.columns_pos
      apply RowFormat.cells_joined rfl ?_ (table.fits cells hc)
      rintro rfl
      simp at hlength
      omega
    _ = table.lines := List.map_id _

/-! ## Records -/

theorem length_names : table.names.length = table.columns := by
  rw [names]
  cases h : table.header with
  | none => simp
  | some names => exact table.length_eq names (by simp [h])

theorem nodup_names : table.names.Nodup := by
  rw [names]
  cases h : table.header with
  | none =>
    rw [Option.getD_none]
    apply List.nodup_range.map
    intro i j he
    apply Numeral.repr_injective
    apply String.toList_inj.mp
    simpa [String.toList_append] using congrArg String.toList he
  | some names => exact table.nodup names (by simp [h])

theorem ofPairs_zip (h : cells.length = table.columns) :
    Fields.ofPairs (table.names.zip (cells.map Value.text)) =
      table.names.zip (cells.map Value.text) := by
  apply Fields.ofPairs_eq_self
  rw [Fields.Distinct, Fields.names, List.map_fst_zip (by simp [h, length_names])]
  exact table.nodup_names

theorem numbered_eq (hh : table.header = none) (h : cells.length = table.columns) :
    RowFormat.numbered cells = table.names.zip (cells.map Value.text) := by
  rw [← ofPairs_zip table h, RowFormat.numbered]
  congr 1
  apply List.ext_getElem
  · simp [length_names, h]
  · intro i hi hj
    simp [names, hh]

theorem records_written (hr : delimiter ≠ '\r') (hf : delimiter ≠ '\n') (ends : Nat → LineEnd) :
    table.format.records (table.written ends) = table.records := by
  have hlength : ∀ cells ∈ table.rows, cells.length = table.columns := fun cells hc =>
    table.length_eq cells (List.mem_append_right _ hc)
  have hcells := table.cells_written hr hf ends
  rw [RowFormat.records, hcells, lines, records]
  cases h : table.header with
  | none =>
    simp only [format, h, Option.isSome_none, Option.toList_none, List.nil_append]
    exact List.map_congr_left fun cells hc => table.numbered_eq h (hlength cells hc)
  | some names =>
    simp only [format, h, Option.isSome_some, Option.toList_some, List.singleton_append]
    apply List.map_congr_left
    intro cells hc
    have hzip := table.ofPairs_zip (hlength cells hc)
    rw [Table.names, h, Option.getD_some] at hzip ⊢
    exact hzip

end Table

namespace SandboxedFile

/-- A file with the text of a table is read as the records of the table. -/
theorem rows_read_back (table : Table delimiter) (hr : delimiter ≠ '\r') (hf : delimiter ≠ '\n')
    (ends : Nat → LineEnd) {file : SandboxedFile} {tree : FileTree} {raw : String}
    (h : file.readBytes tree raw = .ok (Utf8.encode (table.written ends))) :
    file.readRows tree table.format raw = .ok table.records := by
  have htext : file.readText tree raw = .ok (table.written ends) := by
    obtain ⟨path, hp, hbytes⟩ := readWith_eq_ok.mp h
    exact readWith_eq_ok.mpr
      ⟨path, hp, FileTree.readText_eq_ok.mpr ⟨_, hbytes, Utf8.decode?_encode _⟩⟩
  rw [readRows, htext, ← table.records_written hr hf ends]
  rfl

/-- Two columns between tabs, one without a name, with empty cells at both ends of lines. -/
def sheet : Table '\t' where
  columns := 2
  header := some ["id", ""]
  rows := [["", "a, b"], ["x", ""]]
  columns_pos := by decide
  length_eq := by decide
  fits := by decide
  nodup := by decide

/-- The first line of the table ends with a carriage return. -/
def sheetEnds : Nat → LineEnd
  | 0 => .returnFeed
  | _ => .feed

def sheetTree : FileTree := ⟨[(["t"], .file (Utf8.encode (sheet.written sheetEnds)))], []⟩

theorem sheet_bytes : (⟨⟨true, []⟩⟩ : SandboxedFile).readBytes sheetTree "t" =
    .ok (Utf8.encode (sheet.written sheetEnds)) := by
  have he : sheetTree.entry? ([] ++ ["t"]) =
      some (.file (Utf8.encode (sheet.written sheetEnds))) := by
    simp [sheetTree, FileTree.entry?]
  have hfind : sheetTree.find (FileTree.Place.toPath ([] ++ ["t"])) = .ok ([] ++ ["t"]) :=
    FileTree.find_place (by decide) (.inr ⟨[], "t", _, rfl, FileTree.settled_top, by decide, he⟩)
  have hpath : (⟨⟨true, []⟩⟩ : SandboxedFile).candidate "t" =
      FileTree.Place.toPath ([] ++ ["t"]) := by
    decide
  have hresolve : (⟨⟨true, []⟩⟩ : SandboxedFile).resolveIn sheetTree "t" =
      .ok (FileTree.Place.toPath ([] ++ ["t"])) := by
    rw [resolveIn, resolve_eq, hpath, FileTree.canonical, hfind]
    rfl
  exact readWith_eq_ok.mpr ⟨_, hresolve, FileTree.readBytes_eq_ok.mpr ⟨_, hfind, he⟩⟩

theorem rows_read_back_sheet :
    sheet.written sheetEnds = "id\t\r\n\ta, b\nx\t\n" ∧
    (⟨⟨true, []⟩⟩ : SandboxedFile).readBytes sheetTree "t" =
      .ok (Utf8.encode (sheet.written sheetEnds)) ∧
    (⟨⟨true, []⟩⟩ : SandboxedFile).readRows sheetTree ⟨"\t", true⟩ "t" =
      .ok [[("id", .text ""), ("", .text "a, b")], [("id", .text "x"), ("", .text "")]] :=
  ⟨by decide, sheet_bytes, rows_read_back sheet (by decide) (by decide) sheetEnds sheet_bytes⟩

end SandboxedFile

end TrieFeed
