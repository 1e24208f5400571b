import TrieFeed.Number.Numeral
import TrieFeed.Proofs.Text.Blank
/-!
# Numbers written out are read back

The digits of a whole number, with a minus sign in front of a negative one, read as that number, and
there is nothing to trim from them.
-/
namespace TrieFeed

namespace Numeral

theorem toNat_of_isDigit {c : Char} (h : isDigit c) : 48 ≤ c.toNat ∧ c.toNat ≤ 57 := by
  simpa [isDigit, Char.le_def, UInt32.le_iff_toNat_le] using h

theorem isDigit_of_mem_repr {n : Nat} {c : Char} (h : c ∈ n.repr.toList) : isDigit c := by
  rw [Nat.toList_repr] at h
  exact Nat.isDigit_of_mem_toDigits (by decide) (by decide) h

theorem repr_toList_ne_nil (n : Nat) : n.repr.toList ≠ [] := by
  rw [Nat.toList_repr]
  exact Nat.toDigits_ne_nil

theorem natural?_repr (n : Nat) : natural? n.repr.toList = some n := by
  have hall : n.repr.toList.all isDigit := List.all_eq_true.mpr fun _ h => isDigit_of_mem_repr h
  have hval : ofDigits n.repr.toList = n := by
    rw [Nat.toList_repr]
    exact Nat.ofDigitChars_toDigits (by decide) (by decide)
  rw [natural?, if_pos ⟨repr_toList_ne_nil n, hall⟩, hval]

theorem repr_injective : Function.Injective Nat.repr := by
  intro m n h
  have hread := natural?_repr m
  rw [h, natural?_repr] at hread
  exact (Option.some_inj.mp hread).symm

theorem toString_ofNat (n : Nat) : (toString (Int.ofNat n)).toList = n.repr.toList := rfl

theorem toString_negSucc (n : Nat) :
    (toString (Int.negSucc n)).toList = '-' :: (n + 1).repr.toList :=
  String.toList_append

/-- Digits carry no sign. -/
theorem integer?_of_digits {cs : List Char} (h : ∀ c ∈ cs, isDigit c) :
    integer? cs = (natural? cs).map fun n => (n : Int) := by
  cases cs with
  | nil => rfl
  | cons c cs =>
    have hc := h c List.mem_cons_self
    have hp : c ≠ '+' := by
      rintro rfl
      exact absurd hc (by decide)
    have hm : c ≠ '-' := by
      rintro rfl
      exact absurd hc (by decide)
    rw [integer?]
    · intro _ he
      exact hp (List.cons.inj he).1
    · intro _ he
      exact hm (List.cons.inj he).1

theorem integer?_toString (n : Int) : integer? (toString n).toList = some n := by
  cases n with
  | ofNat n =>
    rw [toString_ofNat, integer?_of_digits fun _ h => isDigit_of_mem_repr h, natural?_repr]
    rfl
  | negSucc n =>
    rw [toString_negSucc, integer?, natural?_repr]
    rfl

theorem signedWord?_toString {bits : Nat} {n : Int} (h : fitsSigned bits n) :
    signedWord? bits (toString n).toList = some n := by
  rw [signedWord?, integer?_toString, Option.filter_some, if_pos h]

theorem isDigit_of_mem_toString {n : Int} {c : Char} (h : c ∈ (toString n).toList) :
    c = '-' ∨ isDigit c := by
  cases n with
  | ofNat n => exact .inr (isDigit_of_mem_repr h)
  | negSucc n =>
    rw [toString_negSucc] at h
    rcases List.mem_cons.mp h with h | h
    · exact .inl h
    · exact .inr (isDigit_of_mem_repr h)

end Numeral

namespace Text

theorem isBlank_of_isDigit {c : Char} (h : Numeral.isDigit c) : isBlank c = false := by
  have hb := Numeral.toNat_of_isDigit h
  simp only [isBlank]
  simp
  omega

theorem trim_toString (n : Int) : trim (toString n).toList = (toString n).toList := by
  apply trim_eq_self
  intro c hc
  rcases Numeral.isDigit_of_mem_toString hc with rfl | hd
  · rfl
  · exact isBlank_of_isDigit hd

end Text

end TrieFeed
