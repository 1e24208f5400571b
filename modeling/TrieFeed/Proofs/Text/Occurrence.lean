import TrieFeed.Text.Blank
/-!
# Occurrences

Searching a text for another finds exactly the texts that stand in it without a gap.
-/
namespace TrieFeed.Text

theorem after?_eq_some {lead cs rest : List Char} :
    after? lead cs = some rest ↔ cs = lead ++ rest := by
  induction lead generalizing cs with
  | nil => simp [after?]
  | cons l ls ih =>
    cases cs with
    | nil => simp [after?]
    | cons c cs =>
      by_cases h : l = c
      · subst h
        simp [after?, ih]
      · simp [after?, h, Ne.symm h]

theorem isSome_after? {lead cs : List Char} : (after? lead cs).isSome ↔ lead <+: cs := by
  rw [Option.isSome_iff_exists]
  exact exists_congr fun rest => after?_eq_some.trans eq_comm

theorem occurs_iff {part cs : List Char} : occurs part cs ↔ part <:+: cs := by
  induction cs with
  | nil => simp [occurs]
  | cons c cs ih => rw [occurs, Bool.or_eq_true, isSome_after?, ih, List.infix_cons_iff]

theorem contains_of_append {whole part : String} (lead tail : String)
    (h : whole = lead ++ part ++ tail) : contains whole part := by
  refine occurs_iff.mpr ⟨lead.toList, tail.toList, ?_⟩
  rw [h, String.toList_append, String.toList_append]

/-- A text stands in none that is shorter. -/
theorem length_le_of_contains {whole part : String} (h : contains whole part) :
    part.length ≤ whole.length := by
  rw [← String.length_toList, ← String.length_toList]
  exact (occurs_iff.mp h).length_le

end TrieFeed.Text
