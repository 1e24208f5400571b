import Mathlib.Data.Nat.Digits.Defs
import TrieFeed.Proofs.Number.Numeral
import TrieFeed.Schedule.Cadence
/-!
# Intervals as they are written

An interval is read exactly if its text, without the blanks around it and in lowercase, is a number
in ASCII digits and a unit, the number is not zero, and neither it nor its seconds leave sixty-four
bits. It makes no difference whether other digits are told from letters before the number is read.
-/
namespace TrieFeed.Schedule

open Numeral (natural? isDigit digitValue)

/-- The letter and the seconds of each unit. -/
def units : List (Char × Nat) := [('m', 60), ('h', 3600), ('d', 86400)]

/-- ASCII digits that write a number, each with the weight of its place. -/
structure IsNumeral (digits : List Char) (n : Nat) : Prop where
  ne_nil : digits ≠ []
  ascii : ∀ c ∈ digits, '0' ≤ c ∧ c ≤ '9'
  value : n = Nat.ofDigits 10 (digits.reverse.map fun c => c.toNat - 48)

/-- A text that writes a number of units of so many seconds. -/
def Spells (text : String) (n seconds : Nat) : Prop :=
  ∃ digits unit, (Text.asciiLower (Text.trimmed text)).toList = digits ++ [unit] ∧
    IsNumeral digits n ∧ (unit, seconds) ∈ units

variable {text : String} {seconds n : Nat}

/-! ## Numbers and units -/

theorem unitSeconds?_eq_some_iff {unit : Char} :
    unitSeconds? unit = some seconds ↔ (unit, seconds) ∈ units := by
  simp only [units, List.mem_cons, Prod.mk.injEq, List.not_mem_nil, or_false]
  unfold unitSeconds?
  split <;> simp_all [eq_comm]

theorem ofDigits_eq (digits : List Char) :
    Numeral.ofDigits digits = Nat.ofDigits 10 (digits.reverse.map digitValue) := by
  induction digits using List.reverseRecOn with
  | nil => rfl
  | append_singleton digits c ih =>
    have hsnoc : Numeral.ofDigits (digits ++ [c]) =
        10 * Numeral.ofDigits digits + digitValue c := by
      simp [Numeral.ofDigits]
    rw [hsnoc, ih]
    simp [Nat.ofDigits_cons, Nat.add_comm]

theorem natural?_eq_some_iff {digits : List Char} :
    natural? digits = some n ↔ IsNumeral digits n := by
  have hall : digits.all isDigit ↔ ∀ c ∈ digits, '0' ≤ c ∧ c ≤ '9' := by
    simp [isDigit]
  rw [natural?, ofDigits_eq]
  constructor
  · intro h
    split at h
    · rename_i hd
      exact ⟨hd.1, hall.mp hd.2, (Option.some.inj h).symm⟩
    · cases h
  · rintro ⟨hne, hascii, rfl⟩
    exact if_pos ⟨hne, hall.mpr hascii⟩

/-! ## Texts -/

/-- A text as its number and unit are looked for. -/
def lowered (text : String) : List Char := (Text.trim text.toList).map Char.toLower

theorem toList_asciiLower (text : String) :
    (Text.asciiLower (Text.trimmed text)).toList = lowered text := by
  simp [Text.asciiLower, Text.trimmed, lowered]

theorem interval?_nil (h : lowered text = []) : interval? text = none := by
  rw [interval?, ← lowered, h]
  rfl

theorem interval?_snoc {digits : List Char} {unit : Char} (h : lowered text = digits ++ [unit]) :
    interval? text = (unitSeconds? unit).bind fun seconds => (natural? digits).bind fun n =>
      if 0 < n ∧ n < Nat.pow 2 64 ∧ n * seconds < Nat.pow 2 64 then some (n * seconds)
      else none := by
  rw [interval?, ← lowered, h]
  simp

theorem spells_snoc {digits : List Char} {unit : Char} (h : lowered text = digits ++ [unit]) :
    Spells text n seconds ↔ unitSeconds? unit = some seconds ∧ natural? digits = some n := by
  rw [unitSeconds?_eq_some_iff, natural?_eq_some_iff]
  constructor
  · rintro ⟨others, other, he, hn, hu⟩
    rw [toList_asciiLower, h] at he
    obtain ⟨rfl, hlast⟩ := List.append_inj' he rfl
    obtain rfl := List.singleton_inj.mp hlast
    exact ⟨hu, hn⟩
  · rintro ⟨hu, hn⟩
    exact ⟨digits, unit, (toList_asciiLower text).trans h, hn, hu⟩

theorem interval?_eq_some_iff : interval? text = some seconds ↔
    ∃ n unit, Spells text n unit ∧ 1 ≤ n ∧ n < 2 ^ 64 ∧ n * unit < 2 ^ 64 ∧
      seconds = n * unit := by
  rcases List.eq_nil_or_concat (lowered text) with hnil | ⟨digits, unit, hsnoc⟩
  · rw [interval?_nil hnil]
    constructor
    · intro h
      cases h
    · rintro ⟨n, unit, ⟨digits, last, he, -⟩, -⟩
      rw [toList_asciiLower, hnil] at he
      simp at he
  · rw [List.concat_eq_append] at hsnoc
    simp only [interval?_snoc hsnoc, spells_snoc hsnoc, Option.bind_eq_some_iff]
    constructor
    · rintro ⟨seconds, hu, n, hn, h⟩
      split at h
      · rename_i hb
        exact ⟨n, seconds, ⟨hu, hn⟩, hb.1, hb.2.1, hb.2.2, (Option.some.inj h).symm⟩
      · cases h
    · rintro ⟨n, seconds, ⟨hu, hn⟩, hpos, hword, hfits, rfl⟩
      exact ⟨seconds, hu, n, hn, if_pos ⟨hpos, hword, hfits⟩⟩

/-- An interval is read exactly if it is a number and a unit, the number is at least one, and the
number and its seconds fit in sixty-four bits. It then has these seconds, and any other text is
refused. -/
theorem interval_read_exactly (text : String) :
    (∀ seconds, readInterval text = .ok seconds ↔
      ∃ n unit, Spells text n unit ∧ 1 ≤ n ∧ n < 2 ^ 64 ∧ n * unit < 2 ^ 64 ∧
        seconds = n * unit) ∧
    (readInterval text = .error (.badInterval text) ↔
      ¬ ∃ n unit, Spells text n unit ∧ 1 ≤ n ∧ n < 2 ^ 64 ∧ n * unit < 2 ^ 64) := by
  have hread : ∀ seconds, readInterval text = .ok seconds ↔ interval? text = some seconds := by
    intro seconds
    rw [readInterval]
    cases interval? text <;> simp
  have hrefused : readInterval text = .error (.badInterval text) ↔ interval? text = none := by
    rw [readInterval]
    cases interval? text <;> simp
  constructor
  · intro seconds
    rw [hread, interval?_eq_some_iff]
  · rw [hrefused, Option.eq_none_iff_forall_ne_some]
    simp only [ne_eq, interval?_eq_some_iff]
    constructor
    · rintro h ⟨n, unit, hs, hpos, hword, hfits⟩
      exact h _ ⟨n, unit, hs, hpos, hword, hfits, rfl⟩
    · rintro h seconds ⟨n, unit, hs, hpos, hword, hfits, -⟩
      exact h ⟨n, unit, hs, hpos, hword, hfits⟩

example : readInterval " 0090M\n" = .ok 5400 := by decide

/-- The number fits in sixty-four bits, its seconds do not. -/
example : readInterval "18446744073709551615m" =
    .error (.badInterval "18446744073709551615m") := by decide

/-! ## Wider classes of digits -/

/-- A run of one or more digits of a class, and a unit behind it. -/
def captured? (isWide : Char → Bool) (cs : List Char) : Option (List Char × Char) :=
  match cs.reverse with
  | [] => none
  | unit :: digits =>
    if (unitSeconds? unit).isSome ∧ digits ≠ [] ∧ digits.all isWide then
      some (digits.reverse, unit)
    else none

/-- Cuts digits of a class and the unit off first, then reads a word, and then multiplies within the
word. -/
def stagedInterval? (isWide : Char → Bool) (text : String) : Option Nat :=
  (captured? isWide (lowered text)).bind fun (digits, unit) =>
    (Numeral.unsignedWord? 64 digits).bind fun n => (unitSeconds? unit).bind fun seconds =>
      if n = 0 then none
      else if n * seconds < Nat.pow 2 64 then some (n * seconds) else none

theorem captured?_snoc (isWide : Char → Bool) (digits : List Char) (unit : Char) :
    captured? isWide (digits ++ [unit]) =
      if (unitSeconds? unit).isSome ∧ digits ≠ [] ∧ digits.all isWide then some (digits, unit)
      else none := by
  simp [captured?]

theorem unsigned?_of_no_plus {digits : List Char} (h : ∀ c ∈ digits, c ≠ '+') :
    Numeral.unsigned? digits = natural? digits := by
  unfold Numeral.unsigned?
  split
  · exact absurd rfl (h '+' List.mem_cons_self)
  · rfl

theorem bind_word_eq (n seconds : Nat) :
    ((some n).filter fun n => n < Nat.pow 2 64).bind (fun n =>
      if n = 0 then none
      else if n * seconds < Nat.pow 2 64 then some (n * seconds) else none) =
    if 0 < n ∧ n < Nat.pow 2 64 ∧ n * seconds < Nat.pow 2 64 then some (n * seconds) else none := by
  rw [Option.filter_some]
  by_cases hn : n < Nat.pow 2 64
  · by_cases hzero : n = 0
    · simp [hzero]
    · simp [hn, hzero, Nat.pos_of_ne_zero hzero]
  · simp [hn]

/-- It makes no difference which other characters count as digits at first, signs aside. -/
theorem stagedInterval?_eq {isWide : Char → Bool} (hdigit : ∀ c, isDigit c → isWide c)
    (hplus : isWide '+' = false) (text : String) :
    stagedInterval? isWide text = interval? text := by
  rcases List.eq_nil_or_concat (lowered text) with hnil | ⟨digits, unit, hsnoc⟩
  · simp [stagedInterval?, hnil, captured?, interval?_nil hnil]
  rw [List.concat_eq_append] at hsnoc
  rw [stagedInterval?, interval?_snoc hsnoc, hsnoc, captured?_snoc]
  cases hu : unitSeconds? unit with
  | none => simp
  | some seconds =>
    rw [Option.bind_some]
    by_cases hall : digits ≠ [] ∧ digits.all isWide
    · have hword : Numeral.unsigned? digits = natural? digits := by
        apply unsigned?_of_no_plus
        rintro c hc rfl
        simpa [hplus] using List.all_eq_true.mp hall.2 _ hc
      rw [if_pos ⟨rfl, hall⟩, Option.bind_some]
      dsimp only [Numeral.unsignedWord?]
      simp only [hword, hu, Option.bind_some]
      cases natural? digits with
      | none => rfl
      | some n => exact bind_word_eq n seconds
    · have hnone : natural? digits = none := by
        apply if_neg
        rintro ⟨hne, hd⟩
        apply hall
        exact ⟨hne, List.all_eq_true.mpr fun c hc => hdigit c (List.all_eq_true.mp hd c hc)⟩
      rw [if_neg fun h => hall h.2, hnone]
      rfl

end TrieFeed.Schedule
