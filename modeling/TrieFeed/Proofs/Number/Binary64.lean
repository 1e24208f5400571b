import Mathlib.Algebra.Order.Field.Basic
import Mathlib.Data.Nat.Cast.Field
import Mathlib.Data.Rat.Cast.Order
import Mathlib.Tactic.FieldSimp
import Mathlib.Tactic.NormNum
import Mathlib.Tactic.Ring
import TrieFeed.Number.Binary64
/-!
# Values of doubles

A finite double is an exact fraction: its sign, its mantissa and its exponent are its bits. It is
read as a whole number exactly when its value is one.
-/
namespace TrieFeed.Binary64

/-- The value of a finite double. -/
def toRat? (x : Binary64) : Option ℚ :=
  match x.shape with
  | .finite negative m e => some ((if negative then -1 else 1) * m * 2 ^ e)
  | _ => none

/-! ## Whole values -/

theorem mul_zpow_of_nonneg (m : Nat) {e : Int} (h : 0 ≤ e) :
    (m : ℚ) * 2 ^ e = (m * Nat.pow 2 e.toNat : Nat) := by
  obtain ⟨k, rfl⟩ := Int.eq_ofNat_of_zero_le h
  simp

theorem mul_zpow_of_neg (m : Nat) {e : Int} (h : e < 0) :
    (m : ℚ) * 2 ^ e = m / (Nat.pow 2 (-e).toNat : Nat) := by
  obtain ⟨k, hk⟩ := Int.eq_ofNat_of_zero_le (show 0 ≤ -e by omega)
  obtain rfl : e = -k := by omega
  simp [div_eq_mul_inv]

/-- A magnitude without a fraction is its whole part. -/
theorem mul_zpow_eq_trunc {m : Nat} {e : Int} (h : 0 ≤ e ∨ m % Nat.pow 2 (-e).toNat = 0) :
    (m : ℚ) * 2 ^ e = (truncMagnitude m e : Nat) := by
  by_cases he : 0 ≤ e
  · rw [mul_zpow_of_nonneg m he, truncMagnitude, if_pos he]
  · have hd : Nat.pow 2 (-e).toNat ∣ m := Nat.dvd_of_mod_eq_zero (h.resolve_left he)
    have hp : ((Nat.pow 2 (-e).toNat : Nat) : ℚ) ≠ 0 := by simp
    rw [mul_zpow_of_neg m (not_le.mp he), truncMagnitude, if_neg he, Nat.cast_div hd hp]

/-- A magnitude that is a whole number has no fraction. -/
theorem no_fraction_of_eq {m : Nat} {e n : Int} (h : (m : ℚ) * 2 ^ e = n) :
    0 ≤ e ∨ m % Nat.pow 2 (-e).toNat = 0 := by
  by_cases he : 0 ≤ e
  · exact .inl he
  · right
    have hp : ((Nat.pow 2 (-e).toNat : Nat) : ℚ) ≠ 0 := by simp
    rw [mul_zpow_of_neg m (not_le.mp he), div_eq_iff hp] at h
    have hm : (m : Int) = n * (Nat.pow 2 (-e).toNat : Nat) := by exact_mod_cast h
    exact Nat.mod_eq_zero_of_dvd (Int.natCast_dvd_natCast.mp ⟨n, by rw [hm, mul_comm]⟩)

theorem integral?_eq_some_iff {x : Binary64} {n : Int} :
    x.integral? = some n ↔ x.toRat? = some (n : ℚ) := by
  rw [integral?, toRat?]
  cases x.shape with
  | notANumber => simp
  | infinite negative => simp
  | finite negative m e =>
    dsimp only
    by_cases hf : 0 ≤ e ∨ m % Nat.pow 2 (-e).toNat = 0
    · rw [if_pos hf, Option.some_inj, Option.some_inj, mul_assoc, mul_zpow_eq_trunc hf]
      cases negative
      · simp only [Bool.false_eq_true, if_false, one_mul]
        exact_mod_cast Iff.rfl
      · simp only [if_true, neg_mul, one_mul]
        exact_mod_cast Iff.rfl
    · rw [if_neg hf]
      constructor
      · intro h
        cases h
      · intro h
        have hv := Option.some_inj.mp h
        refine absurd ?_ hf
        cases negative
        · rw [if_neg Bool.false_ne_true, one_mul] at hv
          exact no_fraction_of_eq hv
        · rw [if_pos rfl, neg_one_mul, neg_mul, neg_eq_iff_eq_neg] at hv
          exact no_fraction_of_eq (n := -n) (by rw [hv, Int.cast_neg])

/-- The whole number that a double is, if it is one of less than sixty-four bits. -/
def whole? (x : Binary64) : Option Int :=
  x.toRat?.bind fun q => if q.den = 1 ∧ q.num.natAbs < Nat.pow 2 63 then some q.num else none

theorem whole?_eq (x : Binary64) :
    x.whole? = x.integral?.filter fun n => n.natAbs < Nat.pow 2 63 := by
  rw [whole?]
  cases hi : x.integral? with
  | some n =>
    rw [integral?_eq_some_iff.mp hi, Option.bind_some, Rat.den_intCast, Rat.num_intCast,
      Option.filter_some]
    simp
  | none =>
    cases hq : x.toRat? with
    | none => rfl
    | some q =>
      rw [Option.bind_some, if_neg]
      · rfl
      · rintro ⟨hd, -⟩
        have hn : x.integral? = some q.num := by
          rw [integral?_eq_some_iff, hq, Rat.coe_int_num_of_den_eq_one hd]
        rw [hi] at hn
        cases hn

/-! ## Bits -/

theorem toNat_ofMagnitudeBits (negative : Bool) (magnitude : Nat)
    (h : magnitude < Nat.pow 2 63) :
    (ofMagnitudeBits negative magnitude).bits.toNat =
      (if negative then Nat.pow 2 63 else 0) + magnitude := by
  simp only [Nat.pow_eq, Nat.reducePow] at h
  rw [ofMagnitudeBits, UInt64.toNat_ofNat']
  cases negative <;> simp <;> omega

/-- The bits of a double are its sign, its exponent and its fraction. -/
theorem fields_ofMagnitudeBits (negative : Bool) {field fraction : Nat} (hf : field < 2048)
    (hb : fraction < Nat.pow 2 52) :
    (ofMagnitudeBits negative (field * Nat.pow 2 52 + fraction)).exponentField = field ∧
      (ofMagnitudeBits negative (field * Nat.pow 2 52 + fraction)).fractionField = fraction ∧
      (ofMagnitudeBits negative (field * Nat.pow 2 52 + fraction)).isNegative = negative := by
  have hbits := toNat_ofMagnitudeBits negative (field * Nat.pow 2 52 + fraction) (by
    simp only [Nat.pow_eq, Nat.reducePow] at hb ⊢
    omega)
  generalize ofMagnitudeBits negative (field * Nat.pow 2 52 + fraction) = x at hbits
  simp only [Nat.pow_eq, Nat.reducePow] at hb hbits
  refine ⟨?_, ?_, ?_⟩
  · simp only [exponentField, Nat.pow_eq, Nat.reducePow, hbits]
    cases negative <;> simp <;> omega
  · simp only [fractionField, Nat.pow_eq, Nat.reducePow, hbits]
    cases negative <;> simp <;> omega
  · simp only [isNegative, Nat.pow_eq, Nat.reducePow, hbits]
    cases negative <;> simp <;> omega

theorem shape_ofMagnitudeBits (negative : Bool) {field fraction : Nat} (hp : 0 < field)
    (hf : field < 2047) (hb : fraction < Nat.pow 2 52) :
    (ofMagnitudeBits negative (field * Nat.pow 2 52 + fraction)).shape =
      .finite negative (Nat.pow 2 52 + fraction) (field - 1075) := by
  obtain ⟨hfield, hfraction, hsign⟩ :=
    fields_ofMagnitudeBits negative (show field < 2048 by omega) hb
  rw [shape, hfield, hfraction, hsign, if_neg (by omega), if_neg (by omega)]

/-- The least exponent has no implied bit. -/
theorem shape_ofMagnitudeBits_least (negative : Bool) {fraction : Nat}
    (hb : fraction < Nat.pow 2 52) :
    (ofMagnitudeBits negative fraction).shape = .finite negative fraction (-1074) := by
  obtain ⟨hfield, hfraction, hsign⟩ :=
    fields_ofMagnitudeBits negative (show 0 < 2048 by decide) hb
  rw [Nat.zero_mul, Nat.zero_add] at hfield hfraction hsign
  rw [shape, hfield, hfraction, hsign, if_neg (by decide), if_pos rfl]

end TrieFeed.Binary64
