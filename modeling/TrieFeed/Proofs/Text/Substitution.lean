import Mathlib.Data.List.Find
import Mathlib.Data.List.Induction
import TrieFeed.Proofs.Text.Occurrence
/-!
# Marks and their values

Marks are names between braces. Putting values in for all marks in one pass is the same as replacing
one mark after the other, if the values share no character with marks.
-/
namespace TrieFeed.Text

/-- The first of some marks that stands at the start of a text, with its value. -/
def markAt? (values : List (String × String)) (cs : List Char) : Option (String × String) :=
  values.find? fun v => (after? v.1.toList cs).isSome

/-- One pass from the left that puts the value of each mark in its place and keeps all else; `skip`
counts characters of a mark still to drop. -/
def substituteFrom (values : List (String × String)) : List Char → Nat → List Char
  | [], _ => []
  | _ :: cs, skip + 1 => substituteFrom values cs skip
  | c :: cs, 0 =>
    match markAt? values (c :: cs) with
    | some (mark, value) => value.toList ++ substituteFrom values cs (mark.toList.length - 1)
    | none => c :: substituteFrom values cs 0

def substitute (values : List (String × String)) (cs : List Char) : List Char :=
  substituteFrom values cs 0

/-- Small letters between braces. -/
def IsMark (mark : List Char) : Prop :=
  ∃ name, mark = '{' :: (name ++ ['}']) ∧ ∀ c ∈ name, c.isLower

/-- A text that is not empty and has no character that a mark can have. -/
def Inert (value : List Char) : Prop :=
  value ≠ [] ∧ ∀ c ∈ value, c ≠ '{' ∧ c ≠ '}' ∧ c.isLower = false

/-! ## Marks -/

theorem replaceFrom_eq (part new : String) (cs : List Char) (skip : Nat) :
    replaceFrom part.toList new.toList cs skip = substituteFrom [(part, new)] cs skip := by
  induction cs generalizing skip with
  | nil => rfl
  | cons c cs ih =>
    cases skip with
    | succ skip => exact ih skip
    | zero =>
      rw [replaceFrom, substituteFrom, markAt?, List.find?_singleton]
      by_cases h : (after? part.toList (c :: cs)).isSome
      · simp [h, ih]
      · simp [h, ih]

theorem replaceAll_eq (part new text : String) :
    replaceAll part new text = .ofList (substitute [(part, new)] text.toList) := by
  rw [replaceAll, replaceFrom_eq, substitute]

theorem ne_brace_of_isLower {c : Char} (h : c.isLower) : c ≠ '{' ∧ c ≠ '}' := by
  constructor
  · rintro rfl
    exact absurd h (by decide)
  · rintro rfl
    exact absurd h (by decide)

/-- Of two marks at the start of one text neither is longer. -/
theorem IsMark.unique {mark other rest more : List Char} (hm : IsMark mark) (ho : IsMark other)
    (h : mark ++ rest = other ++ more) : mark = other := by
  have hbrace : ∀ {name tail : List Char}, (∀ c ∈ name, c.isLower) →
      (name ++ '}' :: tail).takeWhile (· ≠ '}') = name := by
    intro name tail hn
    rw [List.takeWhile_append_of_pos]
    · simp
    · intro c hc
      simpa using (ne_brace_of_isLower (hn c hc)).2
  obtain ⟨name, rfl, hname⟩ := hm
  obtain ⟨name', rfl, hname'⟩ := ho
  have htail : name ++ '}' :: rest = name' ++ '}' :: more := by simpa using h
  have : name = name' := by
    rw [← hbrace hname, htail, hbrace hname']
  rw [this]

theorem IsMark.exists_tail {mark : List Char} (h : IsMark mark) :
    ∃ tail, mark = '{' :: tail ∧ ∀ c ∈ tail, c ≠ '{' ∧ (c = '}' ∨ c.isLower) := by
  obtain ⟨name, rfl, hname⟩ := h
  refine ⟨name ++ ['}'], rfl, ?_⟩
  intro c hc
  rcases List.mem_append.mp hc with hc | hc
  · exact ⟨(ne_brace_of_isLower (hname c hc)).1, .inr (hname c hc)⟩
  · obtain rfl := List.mem_singleton.mp hc
    exact ⟨by decide, .inl rfl⟩

theorem IsMark.count {mark : List Char} (h : IsMark mark) : mark.count '{' = 1 := by
  obtain ⟨tail, rfl, ht⟩ := h.exists_tail
  have hnone : tail.count '{' = 0 := List.count_eq_zero.mpr fun hc => (ht _ hc).1 rfl
  rw [List.count_cons_self, hnone]

theorem Inert.count {value : List Char} (h : Inert value) : value.count '{' = 0 :=
  List.count_eq_zero.mpr fun hc => (h.2 _ hc).1 rfl

variable {values : List (String × String)}

theorem markAt?_eq_some {cs : List Char} {v : String × String} (h : markAt? values cs = some v) :
    v ∈ values ∧ ∃ rest, cs = v.1.toList ++ rest := by
  refine ⟨List.mem_of_find?_eq_some h, ?_⟩
  have hv : (after? v.1.toList cs).isSome := by simpa using List.find?_some (p := fun v => _) h
  obtain ⟨rest, hr⟩ := Option.isSome_iff_exists.mp hv
  exact ⟨rest, after?_eq_some.mp hr⟩

theorem markAt?_eq_none {cs : List Char} :
    markAt? values cs = none ↔ ∀ v ∈ values, ¬ v.1.toList <+: cs := by
  simp [markAt?, ← isSome_after?]

section

variable (hm : ∀ v ∈ values, IsMark v.1.toList)
include hm

/-- What stands behind a mark has no part in which one it is. -/
theorem markAt?_mark {mark : List Char} (h : IsMark mark) (rest : List Char) :
    markAt? values (mark ++ rest) = values.find? fun v => v.1.toList = mark := by
  rw [markAt?]
  apply List.find?_congr
  intro v hv
  rw [Bool.eq_iff_iff, Option.isSome_iff_exists, decide_eq_true_iff]
  constructor
  · rintro ⟨more, ha⟩
    exact (h.unique (hm v hv) (after?_eq_some.mp ha)).symm
  · rintro rfl
    exact ⟨rest, after?_eq_some.mpr rfl⟩

theorem markAt?_of_ne {c : Char} (h : c ≠ '{') (cs : List Char) :
    markAt? values (c :: cs) = none := by
  cases hv : markAt? values (c :: cs) with
  | none => rfl
  | some v =>
    obtain ⟨hmem, rest, hr⟩ := markAt?_eq_some hv
    obtain ⟨tail, ht, -⟩ := (hm v hmem).exists_tail
    rw [ht, List.cons_append] at hr
    exact absurd (List.cons.inj hr).1 h

end

/-! ## One pass -/

theorem substituteFrom_skip (values : List (String × String)) (lead cs : List Char) :
    substituteFrom values (lead ++ cs) lead.length = substitute values cs := by
  induction lead with
  | nil => rfl
  | cons c lead ih => exact ih

theorem substitute_copy {c : Char} {cs : List Char} (h : markAt? values (c :: cs) = none) :
    substitute values (c :: cs) = c :: substitute values cs := by
  rw [substitute, substituteFrom, h]
  rfl

theorem substitute_nil (cs : List Char) : substitute [] cs = cs := by
  induction cs with
  | nil => rfl
  | cons c cs ih => rw [substitute_copy rfl, ih]

section

variable (hm : ∀ v ∈ values, IsMark v.1.toList)
include hm

theorem substitute_mark {v : String × String} {rest : List Char}
    (h : markAt? values (v.1.toList ++ rest) = some v) :
    substitute values (v.1.toList ++ rest) = v.2.toList ++ substitute values rest := by
  obtain ⟨tail, ht, -⟩ := (hm v (markAt?_eq_some h).1).exists_tail
  have hskip := substituteFrom_skip values tail rest
  rw [ht] at h
  rw [ht, substitute, List.cons_append, substituteFrom, ← List.cons_append, h]
  simp [ht, hskip]

theorem substitute_append {lead : List Char} (h : ∀ c ∈ lead, c ≠ '{') (cs : List Char) :
    substitute values (lead ++ cs) = lead ++ substitute values cs := by
  induction lead with
  | nil => rfl
  | cons c lead ih =>
    obtain ⟨hc, hlead⟩ := List.forall_mem_cons.mp h
    rw [List.cons_append, substitute_copy (markAt?_of_ne hm hc _), ih hlead, List.cons_append]

/-- A mark that is none of those looked for is kept. -/
theorem substitute_other {mark : List Char} (h : IsMark mark) {rest : List Char}
    (hn : markAt? values (mark ++ rest) = none) :
    substitute values (mark ++ rest) = mark ++ substitute values rest := by
  obtain ⟨tail, rfl, ht⟩ := h.exists_tail
  rw [List.cons_append] at hn ⊢
  rw [substitute_copy hn, substitute_append hm fun c hc => (ht c hc).1, List.cons_append]

/-- A text is read from the left, mark by mark and character by character. -/
theorem marks_induction {motive : List Char → Prop} (nil : motive [])
    (mark : ∀ v rest, markAt? values (v.1.toList ++ rest) = some v → motive rest →
      motive (v.1.toList ++ rest))
    (copy : ∀ c cs, markAt? values (c :: cs) = none → motive cs → motive (c :: cs))
    (cs : List Char) : motive cs := by
  induction hn : cs.length using Nat.strong_induction_on generalizing cs with
  | _ n ih =>
    subst hn
    cases cs with
    | nil => exact nil
    | cons c cs =>
      cases h : markAt? values (c :: cs) with
      | none => exact copy c cs h (ih _ (by simp) cs rfl)
      | some v =>
        obtain ⟨hmem, rest, hr⟩ := markAt?_eq_some h
        obtain ⟨tail, ht, -⟩ := (hm v hmem).exists_tail
        have hlength : rest.length < (c :: cs).length := by
          rw [hr, ht]
          simp only [List.length_append, List.length_cons]
          omega
        rw [hr] at h ⊢
        exact mark v rest h (ih _ hlength rest rfl)

/-- Where the rest of a mark stands after values were put in, it stood before. -/
theorem prefix_of_prefix_substitute (hv : ∀ v ∈ values, Inert v.2.toList) {tail cs : List Char}
    (ht : ∀ c ∈ tail, c = '}' ∨ c.isLower) (h : tail <+: substitute values cs) : tail <+: cs := by
  induction cs using marks_induction hm generalizing tail with
  | nil => exact h
  | mark v rest hs ih =>
    cases tail with
    | nil => exact List.nil_prefix
    | cons c tail =>
      -- what is put in starts with a character that no mark has
      obtain ⟨hne, hall⟩ := hv v (markAt?_eq_some hs).1
      obtain ⟨d, ds, hd⟩ := List.exists_cons_of_ne_nil hne
      rw [substitute_mark hm hs, hd, List.cons_append, List.cons_prefix_cons] at h
      obtain ⟨-, hbrace, hlower⟩ := hall d (by rw [hd]; exact List.mem_cons_self)
      rcases ht c List.mem_cons_self with hc | hc
      · exact absurd (h.1.symm.trans hc) hbrace
      · rw [h.1, hlower] at hc
        cases hc
  | copy c cs hs ih =>
    cases tail with
    | nil => exact List.nil_prefix
    | cons d tail =>
      rw [substitute_copy hs, List.cons_prefix_cons] at h
      rw [List.cons_prefix_cons]
      exact ⟨h.1, ih (fun c hc => ht c (List.mem_cons_of_mem _ hc)) h.2⟩

end

/-! ## One mark after the other -/

theorem markAt?_append (values others : List (String × String)) (cs : List Char) :
    markAt? (values ++ others) cs = (markAt? values cs).or (markAt? others cs) :=
  List.find?_append

theorem isMark_single {mark : String} (h : IsMark mark.toList) (new : String) :
    ∀ v ∈ [(mark, new)], IsMark v.1.toList := by
  intro v hv
  rw [List.mem_singleton.mp hv]
  exact h

/-- One more mark can be replaced after the others as well as with them, if their values have no
character of a mark. -/
theorem substitute_substitute (hm : ∀ v ∈ values, IsMark v.1.toList)
    (hv : ∀ v ∈ values, Inert v.2.toList) {mark : String} (h : IsMark mark.toList) (new : String)
    (cs : List Char) : substitute [(mark, new)] (substitute values cs) =
      substitute (values ++ [(mark, new)]) cs := by
  have hone := isMark_single h new
  have hall : ∀ v ∈ values ++ [(mark, new)], IsMark v.1.toList :=
    List.forall_mem_append.mpr ⟨hm, hone⟩
  induction cs using marks_induction hall with
  | nil => rfl
  | mark v rest hs ih =>
    rw [substitute_mark hall hs]
    rw [markAt?_append] at hs
    rcases Option.or_eq_some_iff.mp hs with hs | ⟨hn, hs⟩
    · have hinert := hv v (markAt?_eq_some hs).1
      rw [substitute_mark hm hs, substitute_append hone fun c hc => (hinert.2 c hc).1, ih]
    · obtain rfl := List.mem_singleton.mp (markAt?_eq_some hs).1
      have hstands : markAt? [(mark, new)] (mark.toList ++ substitute values rest) =
          some (mark, new) := by
        rw [markAt?_mark hone h]
        simp
      rw [substitute_other hm h hn, substitute_mark (v := (mark, new)) hone hstands, ih]
  | copy c cs hs ih =>
    rw [substitute_copy hs]
    rw [markAt?_append, Option.or_eq_none_iff] at hs
    have hnone : markAt? [(mark, new)] (c :: substitute values cs) = none := by
      rw [markAt?_eq_none, List.forall_mem_singleton]
      intro hp
      obtain ⟨tail, ht, hchars⟩ := h.exists_tail
      rw [ht, List.cons_prefix_cons] at hp
      have hbefore := prefix_of_prefix_substitute hm hv (fun c hc => (hchars c hc).2) hp.2
      apply markAt?_eq_none.mp hs.2 _ List.mem_cons_self
      rw [ht, List.cons_prefix_cons]
      exact ⟨hp.1, hbefore⟩
    rw [substitute_copy hs.1, substitute_copy hnone, ih]

/-- Several marks can be replaced in turn, if their values have no character of a mark. -/
theorem foldl_replaceAll (hm : ∀ v ∈ values, IsMark v.1.toList)
    (hv : ∀ v ∈ values, Inert v.2.toList) (text : String) :
    values.foldl (fun text (mark, new) => replaceAll mark new text) text =
      .ofList (substitute values text.toList) := by
  induction values using List.reverseRecOn with
  | nil => simp [substitute_nil]
  | append_singleton values v ih =>
    obtain ⟨mark, new⟩ := v
    obtain ⟨hm, hmark⟩ := List.forall_mem_append.mp hm
    have hvalues := (List.forall_mem_append.mp hv).1
    have hlast : IsMark mark.toList := hmark _ List.mem_cons_self
    rw [List.foldl_append, ih hm hvalues]
    simp [replaceAll_eq, substitute_substitute hm hvalues hlast]

end TrieFeed.Text
