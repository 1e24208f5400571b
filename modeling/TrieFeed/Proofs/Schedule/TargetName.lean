import TrieFeed.Proofs.Number.Numeral
import TrieFeed.Proofs.Text.NewMarks
import TrieFeed.Schedule.TargetName
/-!
# Target names that are read once

Date and time, timestamp and epoch are numbers and their separators, so that the order in which
they are put in makes no difference. The name of the provider can be any text: it can bring marks
of its own, or make one with the text around it, and those are replaced as well. A target name
comes of one pass over its pattern just if the provider's name makes no such mark.
-/
namespace TrieFeed.Text

theorem inert_append {front back : List Char} (hf : Inert front) (hb : Inert back) :
    Inert (front ++ back) := by
  refine ⟨List.append_ne_nil_of_left_ne_nil hf.1 back, ?_⟩
  intro c hc
  rcases List.mem_append.mp hc with h | h
  · exact hf.2 c h
  · exact hb.2 c h

theorem inert_digits {cs : List Char} (hne : cs ≠ []) (h : ∀ c ∈ cs, Numeral.isDigit c) :
    Inert cs := by
  refine ⟨hne, ?_⟩
  intro c hc
  have hd := Numeral.toNat_of_isDigit (h c hc)
  refine ⟨?_, ?_, ?_⟩
  · rintro rfl
    exact absurd hd (by decide)
  · rintro rfl
    exact absurd hd (by decide)
  · rw [Bool.eq_false_iff, ne_eq, isLower_iff]
    omega

theorem inert_repr (n : Nat) : Inert n.repr.toList :=
  inert_digits (Numeral.repr_toList_ne_nil n) fun _ hc => Numeral.isDigit_of_mem_repr hc

theorem inert_toString (n : Int) : Inert (toString n).toList := by
  cases n with
  | ofNat n => exact inert_repr n
  | negSucc n =>
    have hsign : Inert ['-'] := by simp [Inert]
    rw [Numeral.toString_negSucc]
    exact inert_append hsign (inert_repr (n + 1))

end TrieFeed.Text

namespace TrieFeed.Time

open TrieFeed.Text

theorem inert_padded (width n : Nat) : Inert (padded width n).toList := by
  simp only [padded, String.toList_ofList]
  apply inert_digits
  · exact List.append_ne_nil_of_right_ne_nil _ (Numeral.repr_toList_ne_nil n)
  · intro c hc
    rcases List.mem_append.mp hc with h | h
    · rw [List.eq_of_mem_replicate h]
      decide
    · exact Numeral.isDigit_of_mem_repr h

theorem inert_year (year : Int) : Inert (yearText year).toList := by
  rw [yearText]
  split
  · exact inert_padded 4 year.toNat
  · rw [String.toList_append]
    refine inert_append ?_ (inert_padded 4 year.natAbs)
    split <;> simp [Inert]

theorem inert_date (d : Date) : Inert d.text.toList := by
  have hsign : Inert "-".toList := by simp [Inert]
  simp only [Date.text, String.toList_append]
  exact inert_append (inert_append (inert_append (inert_append (inert_year d.year) hsign)
    (inert_padded 2 d.month)) hsign) (inert_padded 2 d.day)

theorem inert_clock (c : Clock) : Inert c.text.toList := by
  have hcolon : Inert ":".toList := by simp [Inert]
  simp only [Clock.text, String.toList_append]
  exact inert_append (inert_append (inert_append (inert_append (inert_padded 2 c.hour) hcolon)
    (inert_padded 2 c.minute)) hcolon) (inert_padded 2 c.second)

end TrieFeed.Time

namespace TrieFeed.Schedule

open TrieFeed.Text

/-- The pattern that is read, which is the default for a blank one. -/
def patternRead (pattern : String) : List Char :=
  (if allBlank pattern then defaultPattern else pattern).toList

/-- The mark of the provider's name, with a name. -/
def named (provider : String) : List (String × String) := [(marked "provider", provider)]

/-- The marks whose values come from the instant. -/
def timed (now : Int) : List (String × String) := (replacements "" now).tail

theorem replacements_eq (provider : String) (now : Int) :
    replacements provider now = named provider ++ timed now := rfl

theorem isMark_marked {name : String} (h : name.toList.all Char.isLower) :
    IsMark (marked name).toList := by
  refine ⟨name.toList, ?_, List.all_eq_true.mp h⟩
  simp [marked]

theorem isMark_provider : IsMark (marked "provider").toList := isMark_marked (by decide)

theorem isMark_timed (now : Int) : ∀ v ∈ timed now, IsMark v.1.toList := by
  simp only [timed, replacements, List.tail_cons, List.forall_mem_cons]
  refine ⟨?_, ?_, ?_, ?_, by simp⟩ <;> exact isMark_marked (by decide)

theorem timed_ne_provider (now : Int) :
    ∀ v ∈ timed now, v.1.toList ≠ (marked "provider").toList := by
  simp [timed, replacements, marked]

theorem inert_timed (now : Int) : ∀ v ∈ timed now, Inert v.2.toList := by
  have hdate : Inert (dateText now).toList := Time.inert_date _
  have hbetween : Inert "T".toList := by simp [Inert]
  simp only [timed, replacements, List.tail_cons, List.forall_mem_cons]
  refine ⟨?_, hdate, inert_toString now, inert_toString (epochAt now), by simp⟩
  simp only [String.toList_append]
  exact inert_append (inert_append hdate hbetween) (Time.inert_clock _)

/-! ## Twice or once -/

/-- The text that a pattern becomes when all marks are replaced in one pass. -/
def readOnce (pattern provider : String) (now : Int) : String :=
  .ofList (substitute (replacements provider now) (patternRead pattern))

/-- The pattern with the provider's name put in. -/
def withName (pattern provider : String) : List Char :=
  substitute (named provider) (patternRead pattern)

theorem targetName_eq (pattern provider : String) (now : Int) :
    targetName pattern provider now =
      .ofList (substitute (timed now) (withName pattern provider)) := by
  rw [targetName, replacements_eq, List.foldl_append,
    foldl_replaceAll (isMark_timed now) (inert_timed now)]
  simp [named, replaceAll_eq, withName, patternRead]

theorem targetName_eq_readOnce_iff (pattern provider : String) (now : Int) :
    targetName pattern provider now = readOnce pattern provider now ↔
      countMarks (timed now) (withName pattern provider) =
        countMarks (timed now) (patternRead pattern) := by
  have hpass := pass_substitute provider isMark_provider (isMark_timed now) (patternRead pattern)
  rw [targetName_eq, readOnce, String.ofList_inj]
  exact hpass.substitute_eq_iff isMark_provider (isMark_timed now) (timed_ne_provider now)
    (inert_timed now)

/-- A target name is read twice: for the name of the provider, then for the rest. Reading it once
gives the same just if the provider's name brings or makes no mark. -/
theorem targetName_once_iff (pattern provider : String) (now : Int) :
    targetName pattern provider now =
        .ofList (substitute (timed now) (withName pattern provider)) ∧
      (targetName pattern provider now = readOnce pattern provider now ↔
        countMarks (timed now) (withName pattern provider) =
          countMarks (timed now) (patternRead pattern)) :=
  ⟨targetName_eq pattern provider now, targetName_eq_readOnce_iff pattern provider now⟩

/-- A provider with the mark of a date for a name. -/
theorem targetName_once_iff_dated :
    targetName (marked "provider") (marked "date") 0 = "1970-01-01" ∧
      readOnce (marked "provider") (marked "date") 0 = marked "date" ∧
      targetName (marked "provider") (marked "date") 0 ≠
        readOnce (marked "provider") (marked "date") 0 := by
  refine ⟨by decide, by decide, ?_⟩
  exact mt (targetName_once_iff (marked "provider") (marked "date") 0).2.mp (by decide)

/-- A provider whose name has no braces gives names that are read once, whatever the pattern, just
if its name is a part of none of the other marks. -/
theorem targetNames_once_iff {provider : String}
    (hname : '{' ∉ provider.toList ∧ '}' ∉ provider.toList) (now : Int) :
    (∀ pattern, targetName pattern provider now = readOnce pattern provider now) ↔
      ∀ v ∈ timed now, ¬ provider.toList <:+: v.1.toList := by
  simp only [targetName_eq_readOnce_iff]
  constructor
  · intro h v hv hpart
    obtain ⟨cs, hopen, hne⟩ := exists_countMarks_ne isMark_provider (isMark_timed now)
      (timed_ne_provider now) hname hv hpart
    have hblank : allBlank (.ofList cs) = false := by
      rw [allBlank, String.toList_ofList, List.all_eq_false]
      exact ⟨_, hopen, by decide⟩
    have hread : patternRead (.ofList cs) = cs := by
      simp [patternRead, hblank]
    apply hne
    simpa only [withName, named, hread] using h (.ofList cs)
  · intro h pattern
    have hpass := pass_substitute provider isMark_provider (isMark_timed now)
      (patternRead pattern)
    exact hpass.countMarks_eq (isMark_timed now) hname h isMark_provider (timed_ne_provider now)

end TrieFeed.Schedule
