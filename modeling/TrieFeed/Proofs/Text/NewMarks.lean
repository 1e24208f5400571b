import TrieFeed.Proofs.Text.Substitution
/-!
# Marks that a value makes

A value that is put in for one mark can hold others, or make one with the text around it. Replacing
the others afterwards is the same as replacing all in one pass just if that does not happen, and it
never happens with a name that has no braces and is no part of a mark.
-/
namespace TrieFeed.Text

/-- How many marks stand in a text. -/
def countMarks (values : List (String × String)) : List Char → Nat
  | [] => 0
  | c :: cs => (if (markAt? values (c :: cs)).isSome then 1 else 0) + countMarks values cs

variable {values : List (String × String)}

section

variable (hm : ∀ v ∈ values, IsMark v.1.toList)
include hm

theorem countMarks_append {lead : List Char} (h : ∀ c ∈ lead, c ≠ '{') (cs : List Char) :
    countMarks values (lead ++ cs) = countMarks values cs := by
  induction lead with
  | nil => rfl
  | cons c lead ih =>
    obtain ⟨hc, hlead⟩ := List.forall_mem_cons.mp h
    rw [List.cons_append, countMarks, markAt?_of_ne hm hc, ih hlead]
    simp

theorem countMarks_mark {mark : List Char} (h : IsMark mark) (cs : List Char) :
    countMarks values (mark ++ cs) =
      (if (values.find? fun v => v.1.toList = mark).isSome then 1 else 0) +
        countMarks values cs := by
  obtain ⟨tail, rfl, ht⟩ := h.exists_tail
  have hat := markAt?_mark hm h cs
  rw [List.cons_append] at hat ⊢
  rw [countMarks, hat, countMarks_append hm fun c hc => (ht c hc).1]

omit hm in
theorem countMarks_le_append (values : List (String × String)) (lead cs : List Char) :
    countMarks values cs ≤ countMarks values (lead ++ cs) := by
  induction lead with
  | nil => exact Nat.le_refl _
  | cons c lead ih =>
    rw [List.cons_append, countMarks]
    omega

omit hm in
/-- Where no more marks stand, what is in front is kept. -/
theorem substitute_of_countMarks_eq {lead cs : List Char}
    (h : countMarks values (lead ++ cs) = countMarks values cs) :
    substitute values (lead ++ cs) = lead ++ substitute values cs := by
  induction lead with
  | nil => rfl
  | cons c lead ih =>
    have hle := countMarks_le_append values lead cs
    rw [List.cons_append, countMarks] at h
    have hnone : markAt? values (c :: (lead ++ cs)) = none := by
      rw [← Option.not_isSome_iff_eq_none]
      intro hs
      rw [if_pos hs] at h
      omega
    rw [List.cons_append, substitute_copy hnone, ih (by omega), List.cons_append]

/-- A mark that is looked for counts once, whatever stands behind it. -/
theorem countMarks_of_find {v : String × String}
    (hf : (values.find? fun w => w.1.toList = v.1.toList) = some v) (cs : List Char) :
    countMarks values (v.1.toList ++ cs) = 1 + countMarks values cs := by
  rw [countMarks_mark hm (hm v (List.mem_of_find?_eq_some hf)), hf]
  rfl

/-- Each mark is one opening brace, which its value does not bring back. -/
theorem count_substitute (hv : ∀ v ∈ values, Inert v.2.toList) (cs : List Char) :
    (substitute values cs).count '{' + countMarks values cs = cs.count '{' := by
  induction cs using marks_induction hm with
  | nil => rfl
  | mark v rest hs ih =>
    have hmem := (markAt?_eq_some hs).1
    have hat := hs
    rw [markAt?_mark hm (hm v hmem)] at hat
    rw [substitute_mark hm hs, countMarks_of_find hm hat, List.count_append, List.count_append,
      (hv v hmem).count, (hm v hmem).count]
    omega
  | copy c cs hs ih =>
    rw [substitute_copy hs, countMarks, hs, List.count_cons, List.count_cons, ← ih]
    simp
    omega

end

/-- A text read once: with the value of one mark put in, and with those of all. -/
inductive Pass (mark new : String) (others : List (String × String)) :
    List Char → List Char → List Char → Prop
  | nil : Pass mark new others [] [] []
  | mark {cs filled whole : List Char} : Pass mark new others cs filled whole →
      Pass mark new others (mark.toList ++ cs) (new.toList ++ filled) (new.toList ++ whole)
  | other {v : String × String} {cs filled whole : List Char} :
      (others.find? fun w => w.1.toList = v.1.toList) = some v →
      Pass mark new others cs filled whole →
      Pass mark new others (v.1.toList ++ cs) (v.1.toList ++ filled) (v.2.toList ++ whole)
  | copy {c : Char} {cs filled whole : List Char} : markAt? others (c :: cs) = none →
      Pass mark new others cs filled whole →
      Pass mark new others (c :: cs) (c :: filled) (c :: whole)

section

variable {mark new : String} {others : List (String × String)} {cs filled whole : List Char}
  (hmark : IsMark mark.toList) (hm : ∀ v ∈ others, IsMark v.1.toList)
  (hne : ∀ v ∈ others, v.1.toList ≠ mark.toList) (hv : ∀ v ∈ others, Inert v.2.toList)

include hmark hm

variable (new) in
theorem pass_substitute (cs : List Char) : Pass mark new others cs
    (substitute [(mark, new)] cs) (substitute ((mark, new) :: others) cs) := by
  have hone := isMark_single hmark new
  have hall : ∀ v ∈ (mark, new) :: others, IsMark v.1.toList :=
    List.forall_mem_cons.mpr ⟨hmark, hm⟩
  have happend : ∀ cs, markAt? ((mark, new) :: others) cs =
      (markAt? [(mark, new)] cs).or (markAt? others cs) := markAt?_append [(mark, new)] others
  induction cs using marks_induction hall with
  | nil => exact .nil
  | mark v rest hs ih =>
    rw [substitute_mark hall hs]
    rw [happend] at hs
    rcases Option.or_eq_some_iff.mp hs with hs | ⟨hn, hs⟩
    · rw [substitute_mark hone hs]
      obtain rfl := List.mem_singleton.mp (markAt?_eq_some hs).1
      exact .mark ih
    · have hmem := (markAt?_eq_some hs).1
      rw [substitute_other hone (hm v hmem) hn]
      rw [markAt?_mark hm (hm v hmem)] at hs
      exact .other hs ih
  | copy c cs hs ih =>
    rw [substitute_copy hs]
    rw [happend, Option.or_eq_none_iff] at hs
    rw [substitute_copy hs.1]
    exact .copy hs.2 ih

include hne

theorem countMarks_other (cs : List Char) :
    countMarks others (mark.toList ++ cs) = countMarks others cs := by
  have hnone : (others.find? fun v => v.1.toList = mark.toList) = none := by
    simpa [List.find?_eq_none] using hne
  rw [countMarks_mark hm hmark, hnone]
  simp

namespace Pass

variable (h : Pass mark new others cs filled whole)
include h

/-- No mark of the text is lost. -/
theorem countMarks_le : countMarks others cs ≤ countMarks others filled := by
  induction h with
  | nil => exact Nat.le_refl _
  | mark _ ih =>
    rw [countMarks_other hmark hm hne]
    exact Nat.le_trans ih (countMarks_le_append _ _ _)
  | other hf _ ih =>
    rw [countMarks_of_find hm hf, countMarks_of_find hm hf]
    omega
  | copy hs _ ih =>
    rw [countMarks, countMarks, hs]
    simp
    omega

/-- Without a new mark, the others can be replaced afterwards. -/
theorem substitute_eq (hc : countMarks others filled = countMarks others cs) :
    substitute others filled = whole := by
  induction h with
  | nil => rfl
  | @mark cs filled whole h ih =>
    rw [countMarks_other hmark hm hne] at hc
    have hle := h.countMarks_le hmark hm hne
    have happend := countMarks_le_append others new.toList filled
    rw [substitute_of_countMarks_eq (by omega), ih (by omega)]
  | @other v cs filled whole hf h ih =>
    rw [countMarks_of_find hm hf, countMarks_of_find hm hf] at hc
    have hat : markAt? others (v.1.toList ++ filled) = some v := by
      rw [markAt?_mark hm (hm v (List.mem_of_find?_eq_some hf)), hf]
    rw [substitute_mark hm hat, ih (by omega)]
  | @copy c cs filled whole hs h ih =>
    rw [countMarks, countMarks, hs] at hc
    have hle := h.countMarks_le hmark hm hne
    have hnone : markAt? others (c :: filled) = none := by
      rw [← Option.not_isSome_iff_eq_none]
      intro hsome
      rw [if_pos hsome] at hc
      simp at hc
      omega
    rw [hnone] at hc
    simp at hc
    rw [substitute_copy hnone, ih hc]

include hv

theorem count_brace : whole.count '{' + countMarks others cs = filled.count '{' := by
  induction h with
  | nil => rfl
  | mark _ ih =>
    rw [countMarks_other hmark hm hne, List.count_append, List.count_append]
    omega
  | other hf _ ih =>
    have hmem := List.mem_of_find?_eq_some hf
    rw [countMarks_of_find hm hf, List.count_append, List.count_append, (hv _ hmem).count,
      (hm _ hmem).count]
    omega
  | copy hs _ ih =>
    rw [countMarks, hs, List.count_cons, List.count_cons]
    simp
    omega

/-- The others can be replaced afterwards just if no mark is new. If one is, too few opening braces
are left. -/
theorem substitute_eq_iff :
    substitute others filled = whole ↔ countMarks others filled = countMarks others cs := by
  refine ⟨?_, h.substitute_eq hmark hm hne⟩
  rintro rfl
  have hafter := count_substitute hm hv filled
  have hpass := h.count_brace hmark hm hne hv
  omega

end Pass

end

/-! ## Names without braces -/

namespace Pass

variable {mark new : String} {others : List (String × String)} {cs filled whole : List Char}
  (hm : ∀ v ∈ others, IsMark v.1.toList) (hnew : '{' ∉ new.toList ∧ '}' ∉ new.toList)
  (h : Pass mark new others cs filled whole)
include hm hnew h

/-- The rest of a mark stands where it did before, unless the name is a part of it. -/
theorem prefix_or_infix {name : List Char} (hname : ∀ c ∈ name, c.isLower)
    (hp : name ++ ['}'] <+: filled) :
    name ++ ['}'] <+: cs ∨ new.toList <:+: name ++ ['}'] := by
  induction h generalizing name with
  | nil => exact .inl hp
  | @mark cs filled whole _ _ =>
    -- the mark and the name start at the same place, and the name cannot hold the brace at its end
    rcases List.prefix_or_prefix_of_prefix hp (List.prefix_append new.toList filled) with hp | hp
    · exact absurd (hp.subset (by simp)) hnew.2
    · exact .inr hp.isInfix
  | @other v cs filled whole hf _ _ =>
    obtain ⟨tail, ht, -⟩ := (hm v (List.mem_of_find?_eq_some hf)).exists_tail
    rw [ht] at hp
    cases name with
    | nil => simp at hp
    | cons d name =>
      rw [List.cons_append, List.cons_append, List.cons_prefix_cons] at hp
      exact absurd hp.1 (ne_brace_of_isLower (hname d List.mem_cons_self)).1
  | @copy c cs filled whole _ _ ih =>
    cases name with
    | nil =>
      refine .inl ?_
      simpa using hp
    | cons d name =>
      rw [List.cons_append, List.cons_prefix_cons] at hp ⊢
      rcases ih (fun c hc => hname c (List.mem_cons_of_mem _ hc)) hp.2 with hp' | hp'
      · exact .inl ⟨hp.1, hp'⟩
      · exact .inr (List.infix_cons hp')

/-- A name without braces makes a new mark only of letters around it that are a mark with it. -/
theorem countMarks_eq (hpart : ∀ v ∈ others, ¬ new.toList <:+: v.1.toList)
    (hmark : IsMark mark.toList) (hne : ∀ v ∈ others, v.1.toList ≠ mark.toList) :
    countMarks others filled = countMarks others cs := by
  induction h with
  | nil => rfl
  | mark _ ih =>
    have hbrace : ∀ c ∈ new.toList, c ≠ '{' := by
      rintro c hc rfl
      exact hnew.1 hc
    rw [countMarks_append hm hbrace, countMarks_other hmark hm hne, ih]
  | other hf _ ih => rw [countMarks_of_find hm hf, countMarks_of_find hm hf, ih]
  | @copy c cs filled whole hs h ih =>
    have hnone : markAt? others (c :: filled) = none := by
      rw [markAt?_eq_none] at hs ⊢
      intro v hv hp
      obtain ⟨name, hv', hname⟩ := hm v hv
      have hbefore := hs v hv
      have hapart := hpart v hv
      rw [hv', List.cons_prefix_cons] at hp
      rw [hv', List.cons_prefix_cons] at hbefore
      rw [hv'] at hapart
      rcases h.prefix_or_infix hm hnew hname hp.2 with hp' | hp'
      · exact hbefore ⟨hp.1, hp'⟩
      · exact hapart (List.infix_cons hp')
    rw [countMarks, countMarks, hs, hnone, ih]

end Pass

/-! ## Names that are a part of a mark -/

theorem not_opening {cs : List Char} (h : ∀ c ∈ cs, c.isLower) : ∀ c ∈ cs, c ≠ '{' :=
  fun c hc => (ne_brace_of_isLower (h c hc)).1

/-- No mark stands around another one. -/
theorem markAt?_open (hm : ∀ v ∈ values, IsMark v.1.toList) {front mark : List Char}
    (h : ∀ c ∈ front, c.isLower) (hmark : IsMark mark) (rest : List Char) :
    markAt? values ('{' :: (front ++ (mark ++ rest))) = none := by
  obtain ⟨tail, rfl, -⟩ := hmark.exists_tail
  have hclose : '}' ∉ front ++ ['{'] := by
    have hnone : '}' ∉ front := fun hc => (ne_brace_of_isLower (h _ hc)).2 rfl
    simpa using hnone
  rw [markAt?_eq_none]
  intro v hv hp
  obtain ⟨name, hname, hlower⟩ := hm v hv
  rw [hname, List.cons_prefix_cons] at hp
  have hfront : front ++ ['{'] <+: front ++ ('{' :: tail ++ rest) := ⟨tail ++ rest, by simp⟩
  rcases List.prefix_or_prefix_of_prefix hp.2 hfront with hp | hp
  · exact hclose (hp.subset (by simp))
  · have hopen : '{' ∈ name := by
      simpa using hp.subset (List.mem_append_right front (List.mem_singleton_self '{'))
    exact not_opening hlower _ hopen rfl

theorem infix_of_infix_mark {part name : List Char} (hpart : '{' ∉ part ∧ '}' ∉ part)
    (h : part <:+: '{' :: (name ++ ['}'])) : part <:+: name := by
  rcases List.infix_cons_iff.mp h with h | h
  · rcases List.prefix_cons_iff.mp h with rfl | ⟨rest, rfl, -⟩
    · exact List.nil_infix
    · simp at hpart
  · rcases List.infix_concat_iff.mp h with h | h
    · rcases List.suffix_concat_iff.mp h with rfl | ⟨rest, rfl, -⟩
      · exact List.nil_infix
      · simp at hpart
    · exact h

section

variable {mark new : String} (hmark : IsMark mark.toList) {front rest : List Char}
  (hfront : ∀ c ∈ front, c.isLower) (hrest : ∀ c ∈ rest, c ≠ '{')
include hmark hfront hrest

theorem substitute_within :
    substitute [(mark, new)] ('{' :: (front ++ (mark.toList ++ rest))) =
      '{' :: (front ++ (new.toList ++ rest)) := by
  have hone := isMark_single hmark new
  have hstands : markAt? [(mark, new)] (mark.toList ++ rest) = some (mark, new) := by
    rw [markAt?_mark hone hmark]
    simp
  have hkept := substitute_append hone hrest []
  rw [List.append_nil] at hkept
  rw [substitute_copy (markAt?_open hone hfront hmark rest),
    substitute_append hone (not_opening hfront),
    substitute_mark (v := (mark, new)) hone hstands, hkept]
  simp [substitute, substituteFrom]

theorem countMarks_within (hm : ∀ v ∈ values, IsMark v.1.toList)
    (hne : ∀ v ∈ values, v.1.toList ≠ mark.toList) :
    countMarks values ('{' :: (front ++ (mark.toList ++ rest))) = 0 := by
  have hnone := countMarks_append hm hrest []
  rw [List.append_nil] at hnone
  rw [countMarks, markAt?_open hm hfront hmark rest,
    countMarks_append hm (not_opening hfront), countMarks_other hmark hm hne, hnone]
  rfl

end

/-- A name without braces that is a part of a mark makes one in some text. -/
theorem exists_countMarks_ne {mark new : String} (hmark : IsMark mark.toList)
    (hm : ∀ v ∈ values, IsMark v.1.toList) (hne : ∀ v ∈ values, v.1.toList ≠ mark.toList)
    (hnew : '{' ∉ new.toList ∧ '}' ∉ new.toList) {v : String × String} (hv : v ∈ values)
    (hpart : new.toList <:+: v.1.toList) :
    ∃ cs, '{' ∈ cs ∧ countMarks values (substitute [(mark, new)] cs) ≠ countMarks values cs := by
  obtain ⟨name, hname, hlower⟩ := hm v hv
  rw [hname] at hpart
  obtain ⟨front, back, rfl⟩ := infix_of_infix_mark hnew hpart
  have hfront : ∀ c ∈ front, c.isLower := fun c hc => hlower c (by simp [hc])
  have hback : ∀ c ∈ back, c.isLower := fun c hc => hlower c (by simp [hc])
  have hrest : ∀ c ∈ back ++ ['}'], c ≠ '{' :=
    List.forall_mem_append.mpr ⟨not_opening hback, by simp⟩
  have hfilled : '{' :: (front ++ (new.toList ++ (back ++ ['}']))) = v.1.toList := by
    simp [hname]
  have hmade : 0 < countMarks values v.1.toList := by
    have hfound : (values.find? fun w => w.1.toList = v.1.toList).isSome := by
      rw [List.find?_isSome]
      exact ⟨v, hv, by simp⟩
    have hcount := countMarks_mark hm (hm v hv) []
    rw [if_pos hfound, List.append_nil] at hcount
    omega
  refine ⟨'{' :: (front ++ (mark.toList ++ (back ++ ['}']))), List.mem_cons_self, ?_⟩
  rw [substitute_within hmark hfront hrest, hfilled, countMarks_within hmark hfront hrest hm hne]
  omega

end TrieFeed.Text
