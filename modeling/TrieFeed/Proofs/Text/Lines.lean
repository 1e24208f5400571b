import TrieFeed.Proofs.Text.Blank
import TrieFeed.Text.Lines
/-!
# Joined cells and ended lines

Splitting at one character takes back the joining with it, whatever stands in the cells besides, and
the lines of a text are those that were ended in it, with a carriage return or without.
-/
namespace TrieFeed.Text

/-! ## Cells -/

theorem splitOn_eq (sep : Char) (cs : List Char) : splitOn sep cs = cs.splitOn sep := by
  rw [List.splitOn_eq_splitOnP]
  induction cs with
  | nil => rfl
  | cons c cs ih =>
    obtain ⟨part, parts, hp⟩ :=
      List.exists_cons_of_ne_nil (List.splitOnP_ne_nil (fun x => x == sep) cs)
    by_cases h : c = sep
    · simp [splitOn, List.splitOnP_cons_eq_if_modifyHead, ih, h]
    · simp [splitOn, List.splitOnP_cons_eq_if_modifyHead, ih, h, hp]

theorem splitOn_ne_nil (sep : Char) (cs : List Char) : splitOn sep cs ≠ [] := by
  rw [splitOn_eq, List.splitOn_eq_splitOnP]
  exact List.splitOnP_ne_nil _ cs

theorem not_mem_of_mem_splitOn {sep : Char} {cs part : List Char} (h : part ∈ splitOn sep cs) :
    sep ∉ part := by
  induction cs generalizing part with
  | nil =>
    obtain rfl : part = [] := List.mem_singleton.mp h
    exact List.not_mem_nil
  | cons c cs ih =>
    obtain ⟨first, parts, hp⟩ := List.exists_cons_of_ne_nil (splitOn_ne_nil sep cs)
    rw [splitOn, hp] at h
    rw [hp] at ih
    by_cases hc : c = sep
    · rw [if_pos hc] at h
      rcases List.mem_cons.mp h with rfl | h
      · exact List.not_mem_nil
      · exact ih h
    · rw [if_neg hc] at h
      rcases List.mem_cons.mp h with rfl | h
      · exact List.not_mem_cons_of_ne_of_not_mem (Ne.symm hc) (ih List.mem_cons_self)
      · exact ih (List.mem_cons_of_mem _ h)

theorem splitFrom_single (delimiter : Char) (cs : List Char) :
    splitFrom [delimiter] cs 0 = cs.splitOn delimiter := by
  rw [List.splitOn_eq_splitOnP]
  induction cs with
  | nil => rfl
  | cons c cs ih =>
    obtain ⟨part, parts, hp⟩ :=
      List.exists_cons_of_ne_nil (List.splitOnP_ne_nil (fun x => x == delimiter) cs)
    by_cases h : delimiter = c
    · subst h
      simp [splitFrom, after?, List.splitOnP_cons_eq_if_modifyHead, ih]
    · simp [splitFrom, after?, List.splitOnP_cons_eq_if_modifyHead, ih, h, Ne.symm h, hp]

/-- Cells with a delimiter between them. -/
def joined (delimiter : Char) (cells : List (List Char)) : List Char :=
  [delimiter].intercalate cells

section

variable {delimiter : Char} {cells : List (List Char)}

theorem splitBy_joined (hne : cells ≠ []) (h : ∀ cell ∈ cells, delimiter ∉ cell) :
    splitBy [delimiter] (joined delimiter cells) = cells := by
  rw [splitBy, List.isEmpty_cons, if_neg Bool.false_ne_true, splitFrom_single]
  exact List.splitOn_intercalate delimiter h hne

theorem splitOn_joined (hne : cells ≠ []) (h : ∀ cell ∈ cells, delimiter ∉ cell) :
    splitOn delimiter (joined delimiter cells) = cells := by
  rw [splitOn_eq]
  exact List.splitOn_intercalate delimiter h hne

theorem mem_joined {c : Char} (h : c ∈ joined delimiter cells) :
    c = delimiter ∨ ∃ cell ∈ cells, c ∈ cell := by
  induction cells with
  | nil => cases h
  | cons cell cells ih =>
    cases cells with
    | nil =>
      right
      simpa [joined] using h
    | cons next cells =>
      rw [joined, List.intercalate_cons_cons, ← joined] at h
      simp only [List.mem_append, List.mem_singleton] at h
      rcases h with (h | h) | h
      · exact .inr ⟨cell, List.mem_cons_self, h⟩
      · exact .inl h
      · apply (ih h).imp_right
        rintro ⟨other, ho, hc⟩
        exact ⟨other, List.mem_cons_of_mem _ ho, hc⟩

/-- What cells and delimiters do not end with, joined cells do not end with. -/
theorem getLast?_joined {c : Char} (hd : delimiter ≠ c)
    (h : ∀ cell ∈ cells, cell.getLast? ≠ some c) : (joined delimiter cells).getLast? ≠ some c := by
  induction cells with
  | nil => simp [joined]
  | cons cell cells ih =>
    obtain ⟨hcell, hcells⟩ := List.forall_mem_cons.mp h
    cases cells with
    | nil => simpa [joined] using hcell
    | cons next cells =>
      rw [joined, List.intercalate_cons_cons, ← joined, List.getLast?_append]
      intro he
      rcases Option.or_eq_some_iff.mp he with hl | ⟨-, hl⟩
      · exact ih hcells hl
      · simp [hd] at hl

end

/-! ## Lines -/

/-- What ends a line. -/
inductive LineEnd where
  | feed
  | returnFeed

/-- What an end has before its line feed. -/
def LineEnd.lead : LineEnd → List Char
  | .feed => []
  | .returnFeed => ['\r']

/-- A text of lines, each with its end. -/
def ended (lines : List (List Char × LineEnd)) : List Char :=
  lines.flatMap fun (line, e) => line ++ e.lead ++ ['\n']

theorem dropReturn_lead {line : List Char} (h : line.getLast? ≠ some '\r') (e : LineEnd) :
    dropReturn (line ++ e.lead) = line := by
  cases e with
  | feed => simp [dropReturn, LineEnd.lead, h]
  | returnFeed => simp [dropReturn, LineEnd.lead]

theorem splitOn_ended {lines : List (List Char × LineEnd)} (h : ∀ l ∈ lines, '\n' ∉ l.1) :
    splitOn '\n' (ended lines) = lines.map (fun (line, e) => line ++ e.lead) ++ [[]] := by
  rw [splitOn_eq]
  induction lines with
  | nil => rfl
  | cons l lines ih =>
    obtain ⟨hl, hlines⟩ := List.forall_mem_cons.mp h
    have hnone : '\n' ∉ l.1 ++ l.2.lead := by
      cases l.2 <;> simp [LineEnd.lead, hl]
    have htext : ended (l :: lines) = (l.1 ++ l.2.lead) ++ '\n' :: ended lines := by
      simp [ended]
    rw [htext, List.splitOn_append_cons_self_of_not_mem hnone, ih hlines]
    rfl

theorem linesOf_eq {cs : List Char} {parts : List (List Char)}
    (h : splitOn '\n' cs = parts ++ [[]]) : linesOf cs = parts.map dropReturn := by
  cases cs with
  | nil =>
    obtain rfl : parts = [] := by simpa [splitOn] using h.symm
    rfl
  | cons c cs => simp [linesOf, h]

/-- The lines of a text are those that were ended in it. -/
theorem linesOf_ended {lines : List (List Char × LineEnd)}
    (h : ∀ l ∈ lines, '\n' ∉ l.1 ∧ l.1.getLast? ≠ some '\r') :
    linesOf (ended lines) = lines.map Prod.fst := by
  rw [linesOf_eq (splitOn_ended fun l hl => (h l hl).1), List.map_map]
  apply List.map_congr_left
  intro l hl
  exact dropReturn_lead (h l hl).2 l.2

end TrieFeed.Text
