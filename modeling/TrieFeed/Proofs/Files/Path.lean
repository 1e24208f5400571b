import Mathlib.Data.List.Induction
import TrieFeed.Files.Path
/-!
# The form of normalized paths

Normalizing leaves no `.`, and each `..` that it could not fold stands before all names. A path
that starts with a name has therefore none left.
-/
namespace TrieFeed.Path

/-- Neither `.` nor `..`. -/
def IsPlain (parts : List Part) : Prop := ∀ part ∈ parts, ∃ s, part = .name s

theorem IsPlain.up_notMem {parts : List Part} (h : IsPlain parts) : Part.up ∉ parts := by
  intro hm
  obtain ⟨s, hs⟩ := h _ hm
  cases hs

theorem plain_map_name (names : List String) : IsPlain (names.map .name) := by
  intro part hm
  obtain ⟨s, -, rfl⟩ := List.mem_map.mp hm
  exact ⟨s, rfl⟩

/-- Steps up, and then names. -/
def IsFolded (parts : List Part) : Prop :=
  ∃ ups names, parts = List.replicate ups .up ++ names ∧ IsPlain names

theorem IsFolded.snoc_name {parts : List Part} (h : IsFolded parts) (s : String) :
    IsFolded (parts ++ [.name s]) := by
  obtain ⟨ups, names, rfl, hn⟩ := h
  refine ⟨ups, names ++ [.name s], List.append_assoc .., ?_⟩
  intro part hm
  rcases List.mem_append.mp hm with hm | hm
  · exact hn part hm
  · exact ⟨s, List.mem_singleton.mp hm⟩

theorem IsFolded.dropLast {parts : List Part} {s : String}
    (h : IsFolded (parts ++ [.name s])) : IsFolded parts := by
  obtain ⟨ups, names, he, hn⟩ := h
  cases names using List.reverseRecOn with
  | nil =>
    rw [List.append_nil] at he
    have hm : Part.name s ∈ List.replicate ups .up := he ▸ List.mem_append_right _ (by simp)
    cases List.eq_of_mem_replicate hm
  | append_singleton names last _ =>
    rw [← List.append_assoc] at he
    obtain ⟨rfl, -⟩ := List.append_inj' he rfl
    exact ⟨ups, names, rfl, fun part hm => hn part (List.mem_append_left _ hm)⟩

/-- A step up that follows no name follows nothing but steps up. -/
theorem IsFolded.snoc_up {parts : List Part} (h : IsFolded parts)
    (hl : ∀ s rest, parts ≠ rest ++ [.name s]) : IsFolded (parts ++ [.up]) := by
  obtain ⟨ups, names, rfl, hn⟩ := h
  cases names using List.reverseRecOn with
  | nil => exact ⟨ups + 1, [], by simp [List.replicate_succ'], fun _ hm => by cases hm⟩
  | append_singleton names last _ =>
    obtain ⟨s, rfl⟩ := hn last (by simp)
    exact absurd (List.append_assoc ..).symm (hl s _)

theorem foldParts_folded (stack parts : List Part) (h : IsFolded stack.reverse) :
    IsFolded (foldParts stack parts) := by
  fun_induction foldParts stack parts with
  | case1 stack => exact h
  | case2 stack rest ih => exact ih h
  | case3 s stack rest ih => exact ih (IsFolded.dropLast (by simpa using h))
  | case4 stack part rest hhere hup ih =>
    apply ih
    rw [List.reverse_cons]
    cases part with
    | here => exact absurd rfl hhere
    | name s => exact h.snoc_name s
    | up =>
      apply h.snoc_up
      intro s before he
      have hs : stack = .name s :: before.reverse := by
        rw [← List.reverse_reverse stack, he, List.reverse_append]
        rfl
      exact hup _ _ hs rfl

theorem normalize_folded (p : Path) : IsFolded p.normalize.parts :=
  foldParts_folded [] p.parts ⟨0, [], rfl, fun _ hm => by cases hm⟩

/-- Folded parts that start with a name hold nothing but names. -/
theorem IsFolded.plain {parts root : List Part} (h : IsFolded parts) (hr : IsPlain root)
    (hne : root ≠ []) (hp : root <+: parts) : IsPlain parts := by
  obtain ⟨ups, names, rfl, hn⟩ := h
  cases ups with
  | zero => exact hn
  | succ ups =>
    cases root with
    | nil => exact absurd rfl hne
    | cons first root =>
      obtain ⟨s, rfl⟩ := hr first (by simp)
      rw [List.replicate_succ, List.cons_append, List.cons_prefix_cons] at hp
      cases hp.1

end TrieFeed.Path
