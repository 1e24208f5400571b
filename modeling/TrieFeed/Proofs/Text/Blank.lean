import Mathlib.Data.List.DropRight
import Mathlib.Data.List.TakeWhile
import Mathlib.Tactic.SplitIfs
import TrieFeed.Text.Blank
/-!
# Blanks and letter case

Trimming takes off the blanks around a text that has none itself, and nothing of a trimmed text.
Mapping to lowercase leaves no capital letter, mapping to capitals no small one, and both keep a
character visible.
-/
namespace TrieFeed.Text

/-! ## Trimming -/

theorem dropWhile_blank {blanks : List Char} (hb : ∀ c ∈ blanks, isBlank c) {core : List Char}
    (hc : ∀ c ∈ core.head?, isBlank c = false) : (blanks ++ core).dropWhile isBlank = core := by
  rw [List.dropWhile_append_of_pos hb]
  cases core with
  | nil => rfl
  | cons c cs =>
    refine List.dropWhile_cons_of_neg ?_
    rw [hc c rfl]
    exact Bool.false_ne_true

/-- A text without blanks is what is left of it between blanks. -/
theorem trim_between {before core after : List Char} (hb : ∀ c ∈ before, isBlank c)
    (hc : ∀ c ∈ core, isBlank c = false) (ha : ∀ c ∈ after, isBlank c) :
    trim (before ++ core ++ after) = core := by
  have hend : ∀ c ∈ after.reverse, isBlank c := fun c hm => ha c (List.mem_reverse.mp hm)
  have hlast : ∀ c ∈ core.reverse.head?, isBlank c = false := fun c hm =>
    hc c (List.mem_reverse.mp (List.mem_of_mem_head? hm))
  have htrimmed : trimEnd (core ++ after) = core := by
    rw [trimEnd, List.reverse_append, dropWhile_blank hend hlast, List.reverse_reverse]
  rw [trim, trimStart, List.append_assoc]
  cases core with
  | nil =>
    have hall : ∀ c ∈ before ++ after, isBlank c := List.forall_mem_append.mpr ⟨hb, ha⟩
    have hnone : (before ++ after ++ []).dropWhile isBlank = [] := dropWhile_blank hall nofun
    rw [List.append_nil] at hnone
    rw [List.nil_append, hnone]
    rfl
  | cons c cs =>
    have hfirst : ∀ d ∈ (c :: cs ++ after).head?, isBlank d = false := by
      intro d hd
      cases hd
      exact hc c List.mem_cons_self
    rw [dropWhile_blank hb hfirst, htrimmed]

theorem trim_eq_self {cs : List Char} (h : ∀ c ∈ cs, isBlank c = false) : trim cs = cs := by
  have ht : trim ([] ++ cs ++ []) = cs := trim_between nofun h nofun
  rwa [List.append_nil] at ht

theorem head?_trimStart (cs : List Char) : ∀ c ∈ (trimStart cs).head?, isBlank c = false := by
  intro c hc
  have h := List.head?_dropWhile_not isBlank cs
  rw [trimStart] at hc
  rw [hc] at h
  exact h

theorem getLast?_trim (cs : List Char) : ∀ c ∈ (trim cs).getLast?, isBlank c = false := by
  intro c hc
  have h := List.head?_dropWhile_not isBlank (trimStart cs).reverse
  rw [trim, trimEnd, List.getLast?_reverse] at hc
  rw [hc] at h
  exact h

/-- Nothing is left to trim of a trimmed text. -/
theorem trim_trim (cs : List Char) : trim (trim cs) = trim cs := by
  obtain ⟨rest, hrest⟩ : trimEnd (trimStart cs) <+: trimStart cs := List.rdropWhile_prefix isBlank _
  have hstart : ([] ++ trimEnd (trimStart cs)).dropWhile isBlank = trimEnd (trimStart cs) :=
    dropWhile_blank (List.forall_mem_nil _) fun c hc =>
      head?_trimStart cs c (hrest ▸ List.mem_head?_append_of_mem_head? hc)
  have hend : trimEnd (trimEnd (trimStart cs)) = trimEnd (trimStart cs) :=
    List.rdropWhile_idempotent isBlank _
  rw [List.nil_append] at hstart
  rw [trim, trimStart, trim, hstart, hend]

theorem trimmed_trimmed (s : String) : trimmed (trimmed s) = trimmed s := by
  rw [trimmed, trimmed, String.toList_ofList, trim_trim]

theorem trim_map {f : Char → Char} (hf : ∀ c, isBlank (f c) = isBlank c) (cs : List Char) :
    trim (cs.map f) = (trim cs).map f := by
  have hp : isBlank ∘ f = isBlank := funext hf
  rw [trim, trimStart, trimEnd, List.dropWhile_map, hp, ← List.map_reverse, List.dropWhile_map, hp,
    ← List.map_reverse]
  rfl

/-- Trimming drops blanks alone. -/
theorem mem_trim_or_isBlank {cs : List Char} {c : Char} (h : c ∈ cs) : c ∈ trim cs ∨ isBlank c := by
  have hdrop {ds : List Char} (hd : c ∈ ds) : c ∈ ds.dropWhile isBlank ∨ isBlank c := by
    rw [← List.takeWhile_append_dropWhile (p := isBlank) (l := ds)] at hd
    rcases List.mem_append.mp hd with hd | hd
    · exact .inr (List.mem_takeWhile_imp hd)
    · exact .inl hd
  rcases hdrop h with h | h
  · exact (hdrop (List.mem_reverse.mpr h)).imp_left List.mem_reverse.mpr
  · exact .inr h

/-- The characters of ASCII that are neither blanks nor control characters. -/
def Visible (c : Char) : Prop := 33 ≤ c.toNat ∧ c.toNat ≤ 126

theorem Visible.isBlank {c : Char} (h : Visible c) : isBlank c = false := by
  obtain ⟨hlow, hhigh⟩ := h
  simp only [Text.isBlank, Bool.or_eq_false_iff, Bool.and_eq_false_iff, decide_eq_false_iff_not,
    beq_eq_false_iff_ne]
  omega

/-! ## Letter case -/

theorem isUpper_iff {c : Char} : c.isUpper ↔ 65 ≤ c.toNat ∧ c.toNat ≤ 90 := by
  have hc : c.isUpper = decide (c.val ≥ 'A'.val ∧ c.val ≤ 'Z'.val) := rfl
  rw [hc, decide_eq_true_iff, ge_iff_le, UInt32.le_iff_toNat_le, UInt32.le_iff_toNat_le]
  rfl

theorem isLower_iff {c : Char} : c.isLower ↔ 97 ≤ c.toNat ∧ c.toNat ≤ 122 := by
  have hc : c.isLower = (decide (c.val ≥ 'a'.val) && decide (c.val ≤ 'z'.val)) := rfl
  rw [hc, Bool.and_eq_true, decide_eq_true_iff, decide_eq_true_iff, ge_iff_le,
    UInt32.le_iff_toNat_le, UInt32.le_iff_toNat_le]
  rfl

theorem toLower_of_not_isUpper {c : Char} (h : c.isUpper = false) : c.toLower = c :=
  dif_neg (of_decide_eq_false h)

/-- Capital letters are moved up by thirty-two, and nothing else is changed. -/
theorem toNat_toLower (c : Char) :
    c.toLower.toNat = if c.isUpper then c.toNat + 32 else c.toNat := by
  by_cases h : c.isUpper
  · have hc := isUpper_iff.mp h
    have hv : c.val ≥ 'A'.val ∧ c.val ≤ 'Z'.val := of_decide_eq_true h
    have hl : c.toLower.val = c.val + ('a'.val - 'A'.val) := congrArg Char.val (dif_pos hv)
    have hn : c.toLower.toNat = (c.toNat + 32) % 2 ^ 32 := congrArg UInt32.toNat hl
    rw [if_pos h, hn]
    omega
  · rw [if_neg h, toLower_of_not_isUpper (Bool.eq_false_iff.mpr h)]

theorem isUpper_toLower (c : Char) : c.toLower.isUpper = false := by
  rw [Bool.eq_false_iff, Ne, isUpper_iff, toNat_toLower]
  split
  · rename_i h
    rw [isUpper_iff] at h
    omega
  · rename_i h
    rwa [isUpper_iff] at h

theorem toLower_toLower (c : Char) : c.toLower.toLower = c.toLower :=
  toLower_of_not_isUpper (isUpper_toLower c)

theorem Visible.toLower {c : Char} (h : Visible c) : Visible c.toLower := by
  rw [Visible, toNat_toLower]
  split
  · rename_i hu
    rw [isUpper_iff] at hu
    omega
  · exact h

/-- Maps the small letters of ASCII alone. -/
def asciiUpper (s : String) : String := .ofList (s.toList.map Char.toUpper)

theorem asciiUpper_append (s t : String) : asciiUpper (s ++ t) = asciiUpper s ++ asciiUpper t := by
  rw [asciiUpper, String.toList_append, List.map_append, String.ofList_append, asciiUpper,
    asciiUpper]

theorem toUpper_of_not_isLower {c : Char} (h : c.isLower = false) : c.toUpper = c :=
  dif_neg fun hc => Bool.eq_false_iff.mp h
    (Bool.and_eq_true_iff.mpr ⟨decide_eq_true hc.1, decide_eq_true hc.2⟩)

/-- Small letters are moved down by thirty-two, and nothing else is changed. -/
theorem toNat_toUpper (c : Char) :
    c.toUpper.toNat = if c.isLower then c.toNat - 32 else c.toNat := by
  by_cases h : c.isLower
  · have hc := isLower_iff.mp h
    have hv : c.val ≥ 'a'.val ∧ c.val ≤ 'z'.val := by
      rw [ge_iff_le, UInt32.le_iff_toNat_le, UInt32.le_iff_toNat_le]
      exact hc
    have hu : c.toUpper = _ := dif_pos hv
    have hn : c.toUpper.toNat = (c.toNat + 4294967264) % 2 ^ 32 := by
      rw [hu, Char.toNat, UInt32.toNat_add]
      rfl
    rw [if_pos h, hn]
    omega
  · rw [if_neg h, toUpper_of_not_isLower (Bool.eq_false_iff.mpr h)]

theorem isLower_toUpper (c : Char) : c.toUpper.isLower = false := by
  rw [Bool.eq_false_iff, Ne, isLower_iff, toNat_toUpper]
  split
  · rename_i h
    rw [isLower_iff] at h
    omega
  · rename_i h
    rwa [isLower_iff] at h

theorem toLower_toUpper (c : Char) : c.toUpper.toLower = c.toLower := by
  refine Char.toNat_inj.mp ?_
  simp only [toNat_toLower, toNat_toUpper, isUpper_iff, isLower_iff]
  split_ifs <;> omega

theorem Visible.toUpper {c : Char} (h : Visible c) : Visible c.toUpper := by
  rw [Visible, toNat_toUpper]
  split
  · rename_i hl
    rw [isLower_iff] at hl
    omega
  · exact h

theorem isBlank_toUpper (c : Char) : isBlank c.toUpper = isBlank c := by
  by_cases h : c.isLower
  · have hl := isLower_iff.mp h
    have hv : Visible c := ⟨by omega, by omega⟩
    rw [hv.isBlank, hv.toUpper.isBlank]
  · rw [toUpper_of_not_isLower (Bool.eq_false_iff.mpr h)]

theorem trimmed_asciiUpper (s : String) : trimmed (asciiUpper s) = asciiUpper (trimmed s) := by
  rw [trimmed, asciiUpper, String.toList_ofList, trim_map isBlank_toUpper, asciiUpper, trimmed,
    String.toList_ofList]

theorem not_isUpper_of_isBlank {c : Char} (h : isBlank c) : c.isUpper = false := by
  rw [Bool.eq_false_iff, Ne, isUpper_iff]
  rintro hu
  have hv : Visible c := ⟨by omega, by omega⟩
  rw [hv.isBlank] at h
  cases h

/-- A text without capitals is in lowercase. -/
theorem asciiLower_eq_self {s : String} (h : ∀ c ∈ trim s.toList, c.isUpper = false) :
    asciiLower s = s := by
  have hall : ∀ c ∈ s.toList, c.toLower = c := by
    intro c hc
    rcases mem_trim_or_isBlank hc with ht | hb
    · exact toLower_of_not_isUpper (h c ht)
    · exact toLower_of_not_isUpper (not_isUpper_of_isBlank hb)
  have hmap : s.toList.map Char.toLower = s.toList :=
    (List.map_congr_left hall).trans (List.map_id _)
  rw [asciiLower, hmap, String.ofList_toList]

end TrieFeed.Text
