import Mathlib.Data.Rat.Floor
import Mathlib.Data.Sign.Basic
import Mathlib.Tactic.Linarith
import TrieFeed.Number.Word
import TrieFeed.Proofs.Number.Binary64
/-!
# Fractions dropped

Doubles and decimals are exact fractions, and cutting one leaves the whole number next to it on the
side of zero. A double cut to a whole one is a double again, and comparing doubles compares values.
-/
namespace TrieFeed

/-- The whole number that is left of a value when its fraction is dropped: it is not farther from
zero, less than one away from the value and on the same side. -/
structure IsTrunc (q : ℚ) (n : ℤ) : Prop where
  within : |(n : ℚ)| ≤ |q|
  near : |q - n| < 1
  side : n = 0 ∨ (0 < n ↔ 0 < q)

namespace IsTrunc

variable {q : ℚ} {n m : ℤ}

theorem ne_zero (h : IsTrunc q n) (hn : n ≠ 0) : q ≠ 0 := by
  rintro rfl
  exact hn (Int.cast_eq_zero.mp (abs_nonpos_iff.mp (h.within.trans_eq abs_zero)))

theorem neg (h : IsTrunc q n) : IsTrunc (-q) (-n) := by
  refine ⟨?_, ?_, ?_⟩
  · rw [Int.cast_neg, abs_neg, abs_neg]
    exact h.within
  · rw [Int.cast_neg, neg_sub_neg, abs_sub_comm]
    exact h.near
  · rw [neg_eq_zero, neg_pos, neg_pos]
    rcases h.side with hn | hs
    · exact .inl hn
    · by_cases hn : n = 0
      · exact .inl hn
      · have hq := h.ne_zero hn
        exact .inr ⟨fun hlt => lt_of_le_of_ne (not_lt.mp fun hp => hlt.not_gt (hs.mpr hp)) hq,
          fun hlt => lt_of_le_of_ne (not_lt.mp fun hp => hlt.not_gt (hs.mp hp)) hn⟩

/-- Of a value that is not negative the whole number below it is left. -/
theorem iff_floor (hq : 0 ≤ q) : IsTrunc q n ↔ n = ⌊q⌋ := by
  constructor
  · intro h
    have hn : (0 : ℚ) ≤ n := by
      rcases h.side with rfl | hs
      · exact le_of_eq Int.cast_zero.symm
      · rcases hq.eq_or_lt with rfl | hpos
        · exact le_of_eq (abs_nonpos_iff.mp (h.within.trans_eq abs_zero)).symm
        · exact Int.cast_nonneg (hs.mpr hpos).le
    have hle : (n : ℚ) ≤ q := by
      have hw := h.within
      rwa [abs_of_nonneg hn, abs_of_nonneg hq] at hw
    have hlt : q < n + 1 := by
      have hnear := (abs_lt.mp h.near).2
      linarith
    exact (Int.floor_eq_iff.mpr ⟨hle, hlt⟩).symm
  · rintro rfl
    have hn : 0 ≤ ⌊q⌋ := Int.floor_nonneg.mpr hq
    have hcast : (0 : ℚ) ≤ ⌊q⌋ := Int.cast_nonneg hn
    have hle := Int.floor_le q
    have hlt := Int.lt_floor_add_one q
    refine ⟨?_, ?_, ?_⟩
    · rwa [abs_of_nonneg hcast, abs_of_nonneg hq]
    · rw [abs_of_nonneg (sub_nonneg.mpr hle)]
      linarith
    · rcases hn.eq_or_lt with h | h
      · exact .inl h.symm
      · have hpos : 0 < q := lt_of_lt_of_le (Int.cast_pos.mpr h) hle
        exact .inr (iff_of_true h hpos)

theorem iff_neg : IsTrunc (-q) n ↔ IsTrunc q (-n) :=
  ⟨fun h => neg_neg q ▸ h.neg, fun h => neg_neg n ▸ h.neg⟩

/-- There is one such number. -/
theorem unique (hn : IsTrunc q n) (hm : IsTrunc q m) : n = m := by
  rcases le_total 0 q with hq | hq
  · rw [(iff_floor hq).mp hn, (iff_floor hq).mp hm]
  · have hneg : 0 ≤ -q := neg_nonneg.mpr hq
    exact neg_injective (((iff_floor hneg).mp hn.neg).trans ((iff_floor hneg).mp hm.neg).symm)

theorem iff_eq (hn : IsTrunc q n) : IsTrunc q m ↔ m = n :=
  ⟨fun hm => hm.unique hn, fun h => h ▸ hn⟩

/-- Nothing is dropped of a whole number. -/
theorem intCast (n : ℤ) : IsTrunc n n := by
  refine ⟨le_refl _, ?_, .inr Int.cast_pos.symm⟩
  rw [sub_self, abs_zero]
  exact one_pos

end IsTrunc

namespace Binary64

variable {x y : Binary64} {p q : ℚ} {n : ℤ}

/-! ## Doubles -/

theorem mul_zpow_nonneg (m : Nat) (e : Int) : (0 : ℚ) ≤ m * 2 ^ e :=
  mul_nonneg (Nat.cast_nonneg m) (zpow_nonneg (by norm_num) e)

theorem floor_mul_zpow (m : Nat) (e : Int) : ⌊(m : ℚ) * 2 ^ e⌋ = (truncMagnitude m e : Nat) := by
  by_cases he : 0 ≤ e
  · rw [mul_zpow_of_nonneg m he, Int.floor_natCast, truncMagnitude, if_pos he]
  · rw [mul_zpow_of_neg m (not_le.mp he), Rat.floor_natCast_div_natCast, truncMagnitude, if_neg he,
      Int.natCast_div]

/-- Cutting a double drops the fraction of its value. -/
theorem trunc?_eq_some_iff : x.trunc? = some n ↔ ∃ q, x.toRat? = some q ∧ IsTrunc q n := by
  rw [trunc?, toRat?]
  cases x.shape with
  | notANumber => simp
  | infinite negative => simp
  | finite negative m e =>
    have hfloor := IsTrunc.iff_floor (n := n) (mul_zpow_nonneg m e)
    have hneg := IsTrunc.iff_floor (n := -n) (mul_zpow_nonneg m e)
    rw [floor_mul_zpow] at hfloor hneg
    simp only [Option.some.injEq, exists_eq_left', mul_assoc]
    cases negative with
    | false => rw [if_neg Bool.false_ne_true, if_neg Bool.false_ne_true, one_mul, hfloor, eq_comm]
    | true =>
      rw [if_pos rfl, if_pos rfl, neg_one_mul, IsTrunc.iff_neg, hneg, neg_eq_iff_eq_neg, eq_comm]

/-- A value is that of the parts of a finite double. -/
theorem exists_shape (hx : x.toRat? = some q) : ∃ negative m e, x.shape = .finite negative m e ∧
    (if negative then -1 else 1) * (m : ℚ) * 2 ^ e = q := by
  rw [toRat?] at hx
  split at hx
  · rename_i negative m e hs
    exact ⟨negative, m, e, hs, Option.some_inj.mp hx⟩
  · cases hx

theorem exists_trunc (hx : x.toRat? = some q) : ∃ n, x.trunc? = some n := by
  obtain ⟨negative, m, e, hs, -⟩ := exists_shape hx
  rw [trunc?, hs]
  exact ⟨_, rfl⟩

theorem isFinite_eq (x : Binary64) : x.isFinite = x.toRat?.isSome := by
  rw [isFinite, toRat?]
  cases x.shape <;> rfl

/-! ### Cutting to a double -/

/-- The mantissa of a finite double has at most fifty-three bits, the first of which is implied. -/
theorem exists_mantissa (h : x.exponentField ≠ 2047) :
    ∃ m < 2 ^ 53, (0 < x.exponentField → m = Nat.pow 2 52 + x.fractionField) ∧
      x.shape = .finite x.isNegative m (max x.exponentField 1 - 1075) := by
  have hf : x.fractionField < 2 ^ 52 := Nat.mod_lt _ (by decide)
  rw [shape, if_neg h]
  by_cases hz : x.exponentField = 0
  · rw [if_pos hz, hz]
    exact ⟨x.fractionField, by omega, fun hp => absurd hp (Nat.lt_irrefl 0), rfl⟩
  · rw [if_neg hz]
    refine ⟨Nat.pow 2 52 + x.fractionField, ?_, fun _ => rfl, ?_⟩
    · rw [Nat.pow_eq]
      omega
    · rw [max_eq_left (by omega)]

theorem exponentField_ne (h : x.trunc? = some n) : x.exponentField ≠ 2047 := by
  intro hf
  rw [trunc?, shape, if_pos hf] at h
  split at h
  · rename_i hs
    split at hs <;> cases hs
  · cases h

theorem trunc?_of_shape {negative : Bool} {m : Nat} {e : Int}
    (hs : x.shape = .finite negative m e) :
    x.trunc? = some (if negative then -(truncMagnitude m e : Int) else truncMagnitude m e) := by
  rw [trunc?, hs]

theorem toRat?_of_shape {negative : Bool} {m : Nat} {e : Int} (hs : x.shape = .finite negative m e)
    (hw : 0 ≤ e ∨ m % Nat.pow 2 (-e).toNat = 0) : x.toRat? =
      some ((if negative then -(truncMagnitude m e : Int) else truncMagnitude m e : Int) : ℚ) := by
  rw [toRat?, hs]
  dsimp only
  rw [mul_assoc, mul_zpow_eq_trunc hw]
  cases negative with
  | false => simp
  | true => simp

/-- A magnitude below one has nothing but a fraction. -/
theorem truncMagnitude_eq_zero {m : Nat} {e : Int} (he : e < -52) (hm : m < 2 ^ 53) :
    truncMagnitude m e = 0 := by
  have hle : 53 ≤ (-e).toNat := by omega
  have hp : 2 ^ 53 ≤ Nat.pow 2 (-e).toNat := Nat.pow_le_pow_right (by decide) hle
  rw [truncMagnitude, if_neg (by omega), Nat.div_eq_of_lt (lt_of_lt_of_le hm hp)]

/-- Clearing the last `k` of the bits after the first leaves as many whole units. -/
theorem cleared_div {k : Nat} (hk : k ≤ 52) (f : Nat) :
    (Nat.pow 2 52 + (f - f % Nat.pow 2 k)) % Nat.pow 2 k = 0 ∧
      (Nat.pow 2 52 + (f - f % Nat.pow 2 k)) / Nat.pow 2 k = (Nat.pow 2 52 + f) / Nat.pow 2 k := by
  have hp : 0 < Nat.pow 2 k := Nat.two_pow_pos k
  have hsplit : Nat.pow 2 52 = Nat.pow 2 k * Nat.pow 2 (52 - k) := by
    simp only [Nat.pow_eq]
    rw [← Nat.pow_add, Nat.add_sub_cancel' hk]
  have hcleared : f - f % Nat.pow 2 k = Nat.pow 2 k * (f / Nat.pow 2 k) := by
    have := Nat.div_add_mod f (Nat.pow 2 k)
    omega
  rw [hcleared, hsplit, ← Nat.mul_add, Nat.mul_mod_right, Nat.mul_div_cancel_left _ hp,
    Nat.mul_add_div hp]
  exact ⟨rfl, rfl⟩

theorem shape_truncated (hl : 1023 ≤ x.exponentField) (hu : x.exponentField < 1075) :
    x.truncated.shape = .finite x.isNegative (Nat.pow 2 52 +
      (x.fractionField - x.fractionField % Nat.pow 2 (1075 - x.exponentField)))
      (x.exponentField - 1075) := by
  have hf : x.fractionField - x.fractionField % Nat.pow 2 (1075 - x.exponentField) <
      Nat.pow 2 52 := Nat.lt_of_le_of_lt (Nat.sub_le _ _) (Nat.mod_lt _ (by decide))
  rw [truncated, if_neg (by omega), if_pos hu]
  exact shape_ofMagnitudeBits x.isNegative (by omega) (by omega) hf

/-- A double cut to a whole one is the whole number that is left. -/
theorem toRat?_truncated (h : x.trunc? = some n) : x.truncated.toRat? = some (n : ℚ) := by
  obtain ⟨m, hm, hmantissa, hs⟩ := exists_mantissa (exponentField_ne h)
  obtain rfl := Option.some_inj.mp (h.symm.trans (trunc?_of_shape hs))
  by_cases hsmall : x.exponentField < 1023
  · have hzero : (zero x.isNegative).shape = .finite x.isNegative 0 (-1074) := by
      cases x.isNegative <;> decide
    rw [truncated, if_pos hsmall, toRat?_of_shape hzero (.inr (Nat.zero_mod _)),
      truncMagnitude_eq_zero (by omega) (by decide), truncMagnitude_eq_zero (by omega) hm]
  · by_cases hlarge : x.exponentField < 1075
    · have hk : (-((x.exponentField : Int) - 1075)).toNat = 1075 - x.exponentField := by omega
      have hle : 1075 - x.exponentField ≤ 52 := by omega
      have he : ¬0 ≤ (x.exponentField : Int) - 1075 := by omega
      obtain ⟨hmod, hdiv⟩ := cleared_div hle x.fractionField
      have hsame : truncMagnitude (Nat.pow 2 52 +
          (x.fractionField - x.fractionField % Nat.pow 2 (1075 - x.exponentField)))
          (x.exponentField - 1075) = truncMagnitude m (x.exponentField - 1075) := by
        rw [hmantissa (by omega), truncMagnitude, truncMagnitude, if_neg he, if_neg he, hk, hdiv]
      rw [toRat?_of_shape (shape_truncated (not_lt.mp hsmall) hlarge) (.inr (hk.symm ▸ hmod)),
        hsame, max_eq_left (by omega)]
    · rw [truncated, if_neg hsmall, if_neg hlarge, toRat?_of_shape hs (.inl (by omega))]

theorem trunc?_truncated (h : x.trunc? = some n) : x.truncated.trunc? = some n :=
  trunc?_eq_some_iff.mpr ⟨n, toRat?_truncated h, .intCast n⟩

/-! ### Order -/

theorem scaled_mul_zpow {negative : Bool} {m : Nat} {e floor : Int} (h : floor ≤ e) :
    (scaled negative m e floor : ℚ) * 2 ^ floor = (if negative then -1 else 1) * m * 2 ^ e := by
  obtain ⟨k, hk⟩ := Int.eq_ofNat_of_zero_le (sub_nonneg.mpr h)
  obtain rfl : e = k + floor := by omega
  have hz : (2 : ℚ) ^ ((k : Int) + floor) = 2 ^ k * 2 ^ floor := by
    rw [zpow_add₀ (by norm_num), zpow_natCast]
  rw [scaled, hz, add_sub_cancel_right, Int.toNat_natCast]
  cases negative with
  | false => simp [mul_assoc]
  | true => simp [mul_assoc]

/-- The order of finite doubles is that of their values. -/
theorem lt_iff (hx : x.toRat? = some p) (hy : y.toRat? = some q) : x.lt y ↔ p < q := by
  obtain ⟨sx, mx, ex, hsx, hp⟩ := exists_shape hx
  obtain ⟨sy, my, ey, hsy, hq⟩ := exists_shape hy
  have hpos : (0 : ℚ) < 2 ^ min ex ey := zpow_pos (by norm_num) _
  unfold lt
  rw [hsx, hsy]
  dsimp only
  rw [decide_eq_true_iff, ← hp, ← hq, ← scaled_mul_zpow (min_le_left ex ey),
    ← scaled_mul_zpow (min_le_right ex ey), mul_lt_mul_iff_left₀ hpos, Int.cast_lt]

/-! ### Words -/

/-- What fits in a word is taken as it is, and anything beyond as the end of the word next to it. -/
theorem toSigned_eq (bits : Nat) (h : x.trunc? = some n) :
    x.toSigned bits = Numeral.clampSigned bits n := by
  rw [trunc?] at h
  rw [toSigned]
  cases hs : x.shape with
  | notANumber => rw [hs] at h; cases h
  | infinite negative => rw [hs] at h; cases h
  | finite negative m e =>
    rw [hs] at h
    cases h
    rfl

/-- A magnitude of sixty-four bits or more ends in eight zeros, as its mantissa is too short to
reach those. -/
theorem truncMagnitude_mod {m : Nat} {e : Int} (hm : m < 2 ^ 53) (h : 2 ^ 63 ≤ truncMagnitude m e) :
    truncMagnitude m e % 256 = 0 := by
  by_cases he : 0 ≤ e
  · rw [truncMagnitude, if_pos he, Nat.pow_eq] at h ⊢
    have hlarge : 8 ≤ e.toNat := by
      by_contra hsmall
      have hp : 2 ^ e.toNat ≤ 2 ^ 8 := Nat.pow_le_pow_right (by decide) (by omega)
      have hle := Nat.mul_le_mul hm.le hp
      omega
    obtain ⟨k, hk⟩ := Nat.exists_eq_add_of_le hlarge
    rw [hk, Nat.pow_add, Nat.mul_left_comm]
    exact Nat.mul_mod_right _ _
  · have hle : truncMagnitude m e ≤ m := by
      rw [truncMagnitude, if_neg he]
      exact Nat.div_le_self _ _
    omega

theorem trunc?_mod (h : x.trunc? = some n) (hn : n < -2 ^ 63 ∨ 2 ^ 63 ≤ n) : n % 256 = 0 := by
  obtain ⟨m, hm, -, hs⟩ := exists_mantissa (exponentField_ne h)
  obtain rfl := Option.some_inj.mp (h.symm.trans (trunc?_of_shape hs))
  have hmod := @truncMagnitude_mod m (max x.exponentField 1 - 1075) hm
  cases hneg : x.isNegative with
  | false =>
    rw [hneg, if_neg Bool.false_ne_true] at hn
    rw [if_neg Bool.false_ne_true]
    have := hmod (by omega)
    omega
  | true =>
    rw [hneg, if_pos rfl] at hn
    rw [if_pos rfl]
    have := hmod (by omega)
    omega

end Binary64

/-! ## Decimals -/

namespace Decimal

/-- The value of a decimal. -/
def toRat (d : Decimal) : ℚ := d.coefficient / 10 ^ d.scale

/-- Cutting a decimal drops the fraction of its value. -/
theorem isTrunc_trunc (d : Decimal) : IsTrunc d.toRat d.trunc := by
  obtain ⟨c, scale⟩ := d
  have hcut (m : Nat) : IsTrunc ((m : ℚ) / 10 ^ scale) (m / (Nat.pow 10 scale : Nat) : Int) := by
    have hq : (0 : ℚ) ≤ (m : ℚ) / 10 ^ scale := by positivity
    rw [IsTrunc.iff_floor hq]
    have hfloor := Rat.floor_natCast_div_natCast m (10 ^ scale)
    rw [Nat.cast_pow, Nat.cast_ofNat] at hfloor
    rw [hfloor]
    rfl
  rw [toRat, trunc]
  obtain ⟨m, rfl | rfl⟩ := Int.eq_nat_or_neg c
  · rw [Int.cast_natCast]
    exact hcut m
  · rw [Int.cast_neg, Int.cast_natCast, neg_div, Int.neg_tdiv]
    exact (hcut m).neg

theorem natAbs_trunc_le (d : Decimal) : d.trunc.natAbs ≤ d.coefficient.natAbs := by
  rw [trunc, Int.natAbs_tdiv]
  exact Nat.div_le_self _ _

end Decimal

end TrieFeed
