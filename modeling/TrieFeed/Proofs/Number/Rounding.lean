import Mathlib.Algebra.Order.Field.Power
import TrieFeed.Proofs.Number.Truncation
/-!
# Rounding to doubles

The doubles whose highest bit is that of a fraction stand at equal distances, and those below it
stand no wider. So the double that is made by rounding the fraction in that unit is one from which
no other is nearer to the fraction.
-/
namespace TrieFeed.Binary64

variable {num den : Nat} {x : Binary64} {p q r : ℚ}

/-- A double with a value from which no finite double is nearer to the fraction. -/
def IsNearest (q : ℚ) (x : Binary64) (p : ℚ) : Prop :=
  x.toRat? = some p ∧ ∀ (y : Binary64) r, y.toRat? = some r → |p - q| ≤ |r - q|

theorem IsNearest.eq_of_exact (h : IsNearest q x p) {y : Binary64} (hy : y.toRat? = some q) :
    p = q := by
  have hle := h.2 y q hy
  rw [sub_self, abs_zero] at hle
  exact sub_eq_zero.mp (abs_nonpos_iff.mp hle)

/-- Zero is a double, so the nearest one is not farther than that. -/
theorem IsNearest.abs_le (h : IsNearest q x p) : |p| ≤ 2 * |q| := by
  have hzero : (zero false).toRat? = some 0 := by
    rw [toRat?, show (zero false).shape = .finite false 0 (-1074) by decide]
    simp
  have hle := h.2 (zero false) 0 hzero
  rw [zero_sub, abs_neg] at hle
  have htri := abs_add_le (p - q) q
  rw [sub_add_cancel] at htri
  linarith

/-! ## Signs -/

/-- A fraction with a sign. -/
def signed (negative : Bool) (q : ℚ) : ℚ := (if negative then -1 else 1) * q

theorem abs_signed (negative : Bool) (q : ℚ) : |signed negative q| = |q| := by
  rw [signed, abs_mul]
  cases negative <;> simp

theorem signed_natAbs (n : Int) : signed (n < 0) n.natAbs = n := by
  rw [signed]
  by_cases h : n < 0
  · have habs : (n.natAbs : ℚ) = -n := by
      rw [← Int.cast_natCast, Int.ofNat_natAbs_of_nonpos h.le, Int.cast_neg]
    simp [h, habs]
  · have habs : (n.natAbs : ℚ) = n := by
      rw [← Int.cast_natCast, Int.natAbs_of_nonneg (not_lt.mp h)]
    simp [h, habs]

theorem signed_sub (negative : Bool) (p q : ℚ) :
    signed negative p - signed negative q = signed negative (p - q) := (mul_sub _ p q).symm

theorem isTrunc_signed {negative : Bool} {n : ℤ} :
    IsTrunc (signed negative q) n ↔ IsTrunc q (if negative then -n else n) := by
  rw [signed]
  cases negative with
  | false => rw [if_neg Bool.false_ne_true, if_neg Bool.false_ne_true, one_mul]
  | true => rw [if_pos rfl, if_pos rfl, neg_one_mul, IsTrunc.iff_neg]

/-! ## The highest bit -/

theorem two_zpow_pos (e : Int) : (0 : ℚ) < 2 ^ e := zpow_pos two_pos e

theorem ratio_nonneg (num den : Nat) : (0 : ℚ) ≤ num / den :=
  div_nonneg (Nat.cast_nonneg num) (Nat.cast_nonneg den)

theorem two_zpow_le_ratio_iff (num : Nat) {k : Int} (hd : den ≠ 0) :
    (if 0 ≤ k then den * Nat.pow 2 k.toNat ≤ num else den ≤ num * Nat.pow 2 (-k).toNat) ↔
      (2 : ℚ) ^ k ≤ num / den := by
  have hden : (0 : ℚ) < den := Nat.cast_pos.mpr (Nat.pos_of_ne_zero hd)
  rw [le_div_iff₀ hden, mul_comm ((2 : ℚ) ^ k)]
  by_cases hk : 0 ≤ k
  · rw [if_pos hk, mul_zpow_of_nonneg den hk, Nat.cast_le]
  · have hp : (0 : ℚ) < (Nat.pow 2 (-k).toNat : Nat) := Nat.cast_pos.mpr (Nat.two_pow_pos _)
    rw [if_neg hk, mul_zpow_of_neg den (not_le.mp hk), div_le_iff₀ hp, ← Nat.cast_mul, Nat.cast_le]

theorem log2_bounds {n : Nat} (h : n ≠ 0) :
    (2 : ℚ) ^ (n.log2 : Int) ≤ n ∧ (n : ℚ) < 2 ^ ((n.log2 : Int) + 1) := by
  have hlow : 2 ^ n.log2 ≤ n := Nat.log2_self_le h
  have hhigh : n < 2 ^ (n.log2 + 1) := Nat.lt_log2_self
  rw [← Nat.cast_succ, zpow_natCast, zpow_natCast]
  exact ⟨by exact_mod_cast hlow, by exact_mod_cast hhigh⟩

theorem floorLog2_spec (hn : num ≠ 0) (hd : den ≠ 0) :
    (2 : ℚ) ^ floorLog2 num den ≤ num / den ∧
      (num / den : ℚ) < 2 ^ (floorLog2 num den + 1) := by
  have hden : (0 : ℚ) < den := Nat.cast_pos.mpr (Nat.pos_of_ne_zero hd)
  obtain ⟨hnlow, hnhigh⟩ := log2_bounds hn
  obtain ⟨hdlow, hdhigh⟩ := log2_bounds hd
  have hreached := two_zpow_le_ratio_iff num (k := (num.log2 : Int) - den.log2) hd
  rw [floorLog2]
  generalize hk : (num.log2 : Int) - den.log2 = k at hreached ⊢
  by_cases h : (2 : ℚ) ^ k ≤ num / den
  · rw [if_pos (by simpa using hreached.mpr h)]
    refine ⟨h, ?_⟩
    -- The quotient of a number below its next power and one above its own.
    rw [div_lt_iff₀ hden]
    calc (num : ℚ) < 2 ^ ((num.log2 : Int) + 1) := hnhigh
      _ = 2 ^ (k + 1) * 2 ^ (den.log2 : Int) := by
        rw [← zpow_add₀ two_ne_zero]
        congr 1
        omega
      _ ≤ 2 ^ (k + 1) * den := mul_le_mul_of_nonneg_left hdlow (two_zpow_pos _).le
  · rw [if_neg (by simpa using fun hr => h (hreached.mp hr)), sub_add_cancel]
    refine ⟨?_, not_le.mp h⟩
    rw [le_div_iff₀ hden]
    calc (2 : ℚ) ^ (k - 1) * den ≤ 2 ^ (k - 1) * 2 ^ ((den.log2 : Int) + 1) :=
          mul_le_mul_of_nonneg_left hdhigh.le (two_zpow_pos _).le
      _ = 2 ^ (num.log2 : Int) := by
        rw [← zpow_add₀ two_ne_zero]
        congr 1
        omega
      _ ≤ num := hnlow

/-! ## Rounding to a whole number -/

/-- Rounding down or up leaves at most a half. -/
theorem roundHalfEven_cases (num den : Nat) :
    (roundHalfEven num den = num / den ∧ 2 * (num % den) ≤ den) ∨
      (roundHalfEven num den = num / den + 1 ∧ den ≤ 2 * (num % den)) := by
  rw [roundHalfEven]
  split_ifs with hlow hhigh
  · exact .inl ⟨rfl, hlow.le⟩
  · exact .inr ⟨rfl, hhigh.le⟩
  · rcases Nat.mod_two_eq_zero_or_one (num / den) with h | h
    · exact .inl ⟨by rw [h, Nat.add_zero], not_lt.mp hhigh⟩
    · exact .inr ⟨by rw [h], not_lt.mp hlow⟩

theorem abs_mul_sub_eq {u : ℚ} (hu : 0 < u) (k q : ℚ) : |k * u - q| = |k - q / u| * u := by
  rw [← abs_of_pos hu, ← abs_mul, abs_of_pos hu, sub_mul, div_mul_cancel₀ _ hu.ne']

theorem roundHalfEven_near (num : Nat) (hd : den ≠ 0) :
    |(roundHalfEven num den : ℚ) - num / den| ≤ 1 / 2 := by
  have hden : (0 : ℚ) < den := Nat.cast_pos.mpr (Nat.pos_of_ne_zero hd)
  have hsplit : (num : ℚ) = den * (num / den : Nat) + (num % den : Nat) := by
    exact_mod_cast (Nat.div_add_mod num den).symm
  have hscale (k : ℚ) : |k - num / den| = |k * den - num| / den := by
    rw [abs_mul_sub_eq hden, mul_div_cancel_right₀ _ hden.ne']
  have hrest : (0 : ℚ) ≤ (num % den : Nat) := Nat.cast_nonneg _
  have hless : ((num % den : Nat) : ℚ) < den :=
    Nat.cast_lt.mpr (Nat.mod_lt num (Nat.pos_of_ne_zero hd))
  rw [hscale, div_le_iff₀ hden, abs_le]
  rcases roundHalfEven_cases num den with ⟨hq, h⟩ | ⟨hq, h⟩
  · have hhalf : 2 * ((num % den : Nat) : ℚ) ≤ den := by exact_mod_cast h
    rw [hq]
    constructor <;> linarith
  · have hhalf : (den : ℚ) ≤ 2 * (num % den : Nat) := by exact_mod_cast h
    rw [hq, Nat.cast_succ, add_mul, one_mul]
    constructor <;> linarith

/-- No whole number is nearer than one that is not farther than a half. -/
theorem near_of_half {a : ℚ} {q : Int} (h : |q - a| ≤ 1 / 2) (j : Int) : |q - a| ≤ |j - a| := by
  by_cases hj : j = q
  · rw [hj]
  · have hone : (1 : ℚ) ≤ |(q : ℚ) - j| := by
      rw [← Int.cast_sub, ← Int.cast_abs]
      exact_mod_cast Int.one_le_abs (sub_ne_zero.mpr (Ne.symm hj))
    have htri : |(q : ℚ) - j| ≤ |q - a| + |j - a| := by
      rw [abs_sub_comm (j : ℚ) a]
      exact abs_sub_le (q : ℚ) a j
    linarith

/-! ## Bits -/

theorem toRat?_of_finite {negative : Bool} {m : Nat} {e : Int}
    (h : x.shape = .finite negative m e) : x.toRat? = some (signed negative (m * 2 ^ e)) := by
  rw [toRat?, h, signed, ← mul_assoc]

/-- A mantissa of up to fifty-three bits over an exponent, into which a further bit is carried. Only
over the least exponent may the highest bit be missing. -/
theorem toRat?_ofMagnitudeBits (negative : Bool) {field q : Nat} (hq : q ≤ Nat.pow 2 53)
    (hn : field = 0 ∨ Nat.pow 2 52 ≤ q) (hf : field < 2045) :
    (ofMagnitudeBits negative (field * Nat.pow 2 52 + q)).toRat? =
      some (signed negative (q * 2 ^ ((field : Int) - 1074))) := by
  have hpow : Nat.pow 2 53 = 2 * Nat.pow 2 52 := rfl
  rcases hq.lt_or_eq with hlt | rfl
  · by_cases hlow : q < Nat.pow 2 52
    · obtain rfl := hn.resolve_right (not_le.mpr hlow)
      rw [Nat.zero_mul, Nat.zero_add, toRat?_of_finite (shape_ofMagnitudeBits_least negative hlow)]
      rfl
    · have hsplit : field * Nat.pow 2 52 + q = (field + 1) * Nat.pow 2 52 + (q - Nat.pow 2 52) := by
        rw [Nat.succ_mul]
        omega
      have hs := shape_ofMagnitudeBits negative (show 0 < field + 1 by omega)
        (show field + 1 < 2047 by omega) (show q - Nat.pow 2 52 < Nat.pow 2 52 by omega)
      have he : ((field + 1 : Nat) : Int) - 1075 = (field : Int) - 1074 := by omega
      rw [hsplit, toRat?_of_finite hs, Nat.add_sub_cancel' (not_lt.mp hlow), he]
  · have hsplit : field * Nat.pow 2 52 + Nat.pow 2 53 = (field + 2) * Nat.pow 2 52 + 0 := by
      rw [hpow, Nat.add_mul, Nat.add_zero]
    have hs := shape_ofMagnitudeBits negative (show 0 < field + 2 by omega)
      (show field + 2 < 2047 by omega) (Nat.two_pow_pos 52)
    have he : ((field + 2 : Nat) : Int) - 1075 = (field : Int) - 1074 + 1 := by omega
    have hcarry : ((Nat.pow 2 52 : Nat) : ℚ) * 2 ^ ((field : Int) - 1074 + 1) =
        (Nat.pow 2 53 : Nat) * 2 ^ ((field : Int) - 1074) := by
      rw [zpow_add_one₀ two_ne_zero, hpow, Nat.cast_mul, Nat.cast_two]
      ring
    rw [hsplit, toRat?_of_finite hs, Nat.add_zero, he, hcarry]

/-! ## Rounding in a unit -/

/-- The exponent of the unit in which a fraction is rounded. -/
def unitOf (num den : Nat) : Int := max (floorLog2 num den - 52) (-1074)

/-- The fraction in its unit, rounded. -/
def mantissaOf (num den : Nat) : Nat :=
  if 0 ≤ unitOf num den then roundHalfEven num (den * Nat.pow 2 (unitOf num den).toNat)
  else roundHalfEven (num * Nat.pow 2 (-unitOf num den).toNat) den

theorem ofRatio_eq (negative : Bool) (hn : num ≠ 0) (hd : den ≠ 0) :
    ofRatio negative num den = ofMagnitudeBits negative
      (min ((unitOf num den + 1074).toNat * Nat.pow 2 52 + mantissaOf num den)
        (2047 * Nat.pow 2 52)) := by
  rw [ofRatio, if_neg (by simp [hn, hd])]
  rfl

theorem mantissaOf_near (num : Nat) (hd : den ≠ 0) :
    |(mantissaOf num den : ℚ) - num / den / 2 ^ unitOf num den| ≤ 1 / 2 := by
  rw [mantissaOf]
  generalize unitOf num den = e
  by_cases he : 0 ≤ e
  · rw [if_pos he, div_div, mul_zpow_of_nonneg den he]
    exact roundHalfEven_near num (Nat.mul_ne_zero hd (Nat.two_pow_pos _).ne')
  · have hscale : (num : ℚ) / den / 2 ^ e = (num * Nat.pow 2 (-e).toNat : Nat) / den := by
      rw [div_div, mul_zpow_of_neg den (not_le.mp he), Nat.cast_mul, div_div_eq_mul_div]
    rw [if_neg he, hscale]
    exact roundHalfEven_near _ hd

/-- The unit is so small that the fraction has at most fifty-three bits before the point. -/
theorem ratio_lt_unit (hn : num ≠ 0) (hd : den ≠ 0) :
    (num : ℚ) / den < 2 ^ 53 * 2 ^ unitOf num den := by
  have hle : floorLog2 num den + 1 ≤ 53 + unitOf num den := by
    rw [unitOf]
    omega
  calc (num : ℚ) / den < 2 ^ (floorLog2 num den + 1) := (floorLog2_spec hn hd).2
    _ ≤ 2 ^ (53 + unitOf num den) := zpow_le_zpow_right₀ one_le_two hle
    _ = 2 ^ 53 * 2 ^ unitOf num den := by
      rw [zpow_add₀ two_ne_zero]
      rfl

/-- Over an exponent above the least it has all of them. -/
theorem unit_le_ratio (hn : num ≠ 0) (hd : den ≠ 0) (hu : unitOf num den ≠ -1074) :
    2 ^ 52 * 2 ^ unitOf num den ≤ (num : ℚ) / den := by
  have he : 52 + unitOf num den = floorLog2 num den := by
    rw [unitOf] at hu ⊢
    omega
  calc (2 : ℚ) ^ 52 * 2 ^ unitOf num den = 2 ^ (52 + unitOf num den) := by
        rw [zpow_add₀ two_ne_zero]
        rfl
    _ = 2 ^ floorLog2 num den := by rw [he]
    _ ≤ num / den := (floorLog2_spec hn hd).1

theorem mantissaOf_le (hn : num ≠ 0) (hd : den ≠ 0) : mantissaOf num den ≤ Nat.pow 2 53 := by
  have hnear := (abs_le.mp (mantissaOf_near num hd)).2
  have hlt : (num : ℚ) / den / 2 ^ unitOf num den < 2 ^ 53 :=
    (div_lt_iff₀ (two_zpow_pos _)).mpr (ratio_lt_unit hn hd)
  have hq : (mantissaOf num den : ℚ) < (Nat.pow 2 53 + 1 : Nat) := by
    rw [Nat.pow_eq]
    push_cast
    linarith
  exact Nat.lt_succ_iff.mp (Nat.cast_lt.mp hq)

theorem le_mantissaOf (hn : num ≠ 0) (hd : den ≠ 0) (hu : unitOf num den ≠ -1074) :
    Nat.pow 2 52 ≤ mantissaOf num den := by
  have hnear := (abs_le.mp (mantissaOf_near num hd)).1
  have hle : (2 : ℚ) ^ 52 ≤ num / den / 2 ^ unitOf num den :=
    (le_div_iff₀ (two_zpow_pos _)).mpr (unit_le_ratio hn hd hu)
  have hq : ((Nat.pow 2 52 : Nat) : ℚ) < (mantissaOf num den + 1 : Nat) := by
    rw [Nat.pow_eq]
    push_cast
    linarith
  exact Nat.lt_succ_iff.mp (Nat.cast_lt.mp hq)

/-- The fraction after rounding. -/
def rounded (num den : Nat) : ℚ := mantissaOf num den * 2 ^ unitOf num den

theorem rounded_nonneg (num den : Nat) : 0 ≤ rounded num den := mul_zpow_nonneg _ _

/-- A fraction in the range of doubles is rounded in its unit. -/
theorem toRat?_ofRatio (negative : Bool) (hn : num ≠ 0) (hd : den ≠ 0)
    (hr : (num : ℚ) / den < 2 ^ 1023) :
    (ofRatio negative num den).toRat? = some (signed negative (rounded num den)) := by
  have hlog : floorLog2 num den < 1023 := by
    have hlt := (floorLog2_spec hn hd).1.trans_lt hr
    exact (zpow_lt_zpow_iff_right₀ one_lt_two).mp (hlt.trans_eq (zpow_natCast 2 1023).symm)
  have hleast : -1074 ≤ unitOf num den := le_max_right _ _
  have hfield : (unitOf num den + 1074).toNat < 2045 := by
    rw [unitOf]
    omega
  have he : (((unitOf num den + 1074).toNat : Nat) : Int) - 1074 = unitOf num den := by omega
  have hq := mantissaOf_le hn hd
  have hnormal : (unitOf num den + 1074).toNat = 0 ∨ Nat.pow 2 52 ≤ mantissaOf num den := by
    by_cases hu : unitOf num den = -1074
    · exact .inl (by rw [hu]; rfl)
    · exact .inr (le_mantissaOf hn hd hu)
  have hbits : (unitOf num den + 1074).toNat * Nat.pow 2 52 + mantissaOf num den ≤
      2047 * Nat.pow 2 52 := by
    simp only [Nat.pow_eq, Nat.reducePow] at hq ⊢
    omega
  rw [ofRatio_eq negative hn hd, min_eq_left hbits,
    toRat?_ofMagnitudeBits negative hq hnormal hfield, he, rounded]

/-! ## The nearest double -/

/-- Finite doubles have mantissas of up to fifty-three bits over the least exponent or a greater. -/
theorem exists_abs_eq (hx : x.toRat? = some r) :
    ∃ (m : Nat) (f : Int), m < 2 ^ 53 ∧ -1074 ≤ f ∧ |r| = m * 2 ^ f := by
  obtain ⟨n, hn⟩ := exists_trunc hx
  obtain ⟨m, hm, -, hs⟩ := exists_mantissa (exponentField_ne hn)
  cases hx.symm.trans (toRat?_of_finite hs)
  refine ⟨m, max x.exponentField 1 - 1075, hm, by omega, ?_⟩
  rw [abs_signed, abs_of_nonneg (mul_zpow_nonneg m _)]

/-- No multiple of the unit is nearer to the fraction than the rounded one. -/
theorem rounded_near_multiple (num : Nat) (hd : den ≠ 0) (j : Int) :
    |rounded num den - num / den| ≤ |(j : ℚ) * 2 ^ unitOf num den - num / den| := by
  have hp := two_zpow_pos (unitOf num den)
  rw [rounded, abs_mul_sub_eq hp, abs_mul_sub_eq hp]
  exact mul_le_mul_of_nonneg_right (near_of_half (mantissaOf_near num hd) j) hp.le

/-- Nothing is lost of a multiple. -/
theorem rounded_of_multiple (hd : den ≠ 0) {j : Int}
    (h : (j : ℚ) * 2 ^ unitOf num den = num / den) : rounded num den = num / den := by
  have hle := rounded_near_multiple num hd j
  rw [h, sub_self, abs_zero] at hle
  exact sub_eq_zero.mp (abs_nonpos_iff.mp hle)

theorem rounded_nearest (hn : num ≠ 0) (hd : den ≠ 0) (hx : x.toRat? = some r) :
    |rounded num den - num / den| ≤ |(|r|) - num / den| := by
  obtain ⟨m, f, hm, hf, hr⟩ := exists_abs_eq hx
  rw [hr]
  by_cases he : unitOf num den ≤ f
  · have hmultiple : (m : ℚ) * 2 ^ f =
        ((m * 2 ^ (f - unitOf num den).toNat : Nat) : Int) * 2 ^ unitOf num den := by
      have hsum : f = ((f - unitOf num den).toNat : Int) + unitOf num den := by omega
      conv_lhs => rw [hsum, zpow_add₀ two_ne_zero, zpow_natCast, ← mul_assoc]
      push_cast
      rfl
    rw [hmultiple]
    exact rounded_near_multiple num hd _
  · -- Doubles off the multiples are all below the highest bit, which is one of the multiples.
    have hlow := unit_le_ratio hn hd (show unitOf num den ≠ -1074 by omega)
    have hbelow : (m : ℚ) * 2 ^ f ≤ 2 ^ 52 * 2 ^ unitOf num den := by
      calc (m : ℚ) * 2 ^ f ≤ 2 ^ 53 * 2 ^ f := by
            refine mul_le_mul_of_nonneg_right ?_ (two_zpow_pos f).le
            exact_mod_cast hm.le
        _ = 2 ^ 52 * 2 ^ (f + 1) := by
          rw [zpow_add_one₀ two_ne_zero]
          ring
        _ ≤ 2 ^ 52 * 2 ^ unitOf num den := by
          refine mul_le_mul_of_nonneg_left ?_ (by norm_num)
          exact zpow_le_zpow_right₀ one_le_two (by omega)
    refine (rounded_near_multiple num hd (2 ^ 52)).trans ?_
    push_cast
    rw [abs_of_nonpos (by linarith), abs_of_nonpos (by linarith)]
    linarith

/-- Rounding a fraction in the range of doubles gives the nearest one. -/
theorem ofRatio_isNearest (negative : Bool) (hn : num ≠ 0) (hd : den ≠ 0)
    (hr : (num : ℚ) / den < 2 ^ 1023) : IsNearest (signed negative (num / den))
      (ofRatio negative num den) (signed negative (rounded num den)) := by
  refine ⟨toRat?_ofRatio negative hn hd hr, fun y r hy => ?_⟩
  calc |signed negative (rounded num den) - signed negative (num / den)|
      = |rounded num den - num / den| := by rw [signed_sub, abs_signed]
    _ ≤ |(|r|) - num / den| := rounded_nearest hn hd hy
    _ = |(|r|) - (|signed negative (num / den)|)| := by
      rw [abs_signed, abs_of_nonneg (ratio_nonneg num den)]
    _ ≤ |r - signed negative (num / den)| := abs_abs_sub_abs_le_abs_sub r _

/-- Above the least exponent at most one part in `2 ^ 53` is lost. -/
theorem rounded_error (hn : num ≠ 0) (hd : den ≠ 0) (hu : unitOf num den ≠ -1074) :
    |rounded num den - num / den| * 2 ^ 53 ≤ num / den := by
  have hp := two_zpow_pos (unitOf num den)
  have hlow := unit_le_ratio hn hd hu
  have hhalf : |rounded num den - num / den| ≤ 1 / 2 * 2 ^ unitOf num den := by
    rw [rounded, abs_mul_sub_eq hp]
    exact mul_le_mul_of_nonneg_right (mantissaOf_near num hd) hp.le
  linarith

/-! ## Whole doubles -/

theorem rounded_whole {n : Nat} (hn : n ≠ 0) (h : n ≤ 2 ^ 53) : rounded n 1 = n := by
  have hone : (n : ℚ) / (1 : Nat) = n := by rw [Nat.cast_one, div_one]
  rw [← hone]
  by_cases hu : unitOf n 1 ≤ 0
  · refine rounded_of_multiple one_ne_zero (j := (n * 2 ^ (-unitOf n 1).toNat : Nat)) ?_
    have hsum : unitOf n 1 = -((-unitOf n 1).toNat : Int) := by omega
    generalize (-unitOf n 1).toNat = k at hsum
    rw [hone, hsum, zpow_neg, zpow_natCast]
    push_cast
    rw [mul_inv_cancel_right₀ (pow_ne_zero k two_ne_zero)]
  · -- Only the power itself has a bit more than a mantissa.
    have hlow := unit_le_ratio hn one_ne_zero (show unitOf n 1 ≠ -1074 by omega)
    have hcast : (n : ℚ) ≤ 2 ^ 53 := by exact_mod_cast h
    have htwo : (2 : ℚ) ≤ 2 ^ unitOf n 1 := by
      have hle := zpow_le_zpow_right₀ (one_le_two (α := ℚ)) (show 1 ≤ unitOf n 1 by omega)
      rwa [zpow_one] at hle
    rw [hone] at hlow
    refine rounded_of_multiple one_ne_zero (j := 2 ^ 52) ?_
    rw [hone]
    push_cast
    linarith

/-- Whole numbers up to `2 ^ 53` have a double of their value. -/
theorem toRat?_ofInt {n : Int} (h : n.natAbs ≤ Nat.pow 2 53) :
    (ofInt n).toRat? = some (n : ℚ) := by
  by_cases hz : n = 0
  · rw [hz, toRat?, show (ofInt 0).shape = .finite false 0 (-1074) by decide]
    simp
  · have hn := Int.natAbs_ne_zero.mpr hz
    have hrange : (n.natAbs : ℚ) / (1 : Nat) < 2 ^ 1023 := by
      have hle : (n.natAbs : ℚ) ≤ 2 ^ 53 := by exact_mod_cast h
      rw [Nat.cast_one, div_one]
      exact hle.trans_lt (pow_lt_pow_right₀ one_lt_two (by decide))
    rw [ofInt, toRat?_ofRatio _ hn one_ne_zero hrange, rounded_whole hn h, signed_natAbs]

/-- Doubles without a bit after the point are all there is from `2 ^ 53` on. -/
theorem exists_int_of_large (hx : x.toRat? = some r) (hr : 2 ^ 53 ≤ |r|) : ∃ k : ℤ, r = k := by
  obtain ⟨m, f, hm, -, hmf⟩ := exists_abs_eq hx
  have hf : 0 ≤ f := by
    by_contra hneg
    have hlt : (m : ℚ) * 2 ^ f < 2 ^ 53 := by
      calc (m : ℚ) * 2 ^ f ≤ m * 1 := by
            refine mul_le_mul_of_nonneg_left ?_ (Nat.cast_nonneg m)
            exact zpow_le_one_of_nonpos₀ one_le_two (by omega)
        _ = m := mul_one _
        _ < 2 ^ 53 := by exact_mod_cast hm
    exact absurd (hmf ▸ hr) (not_le.mpr hlt)
  rw [mul_zpow_of_nonneg m hf] at hmf
  rcases abs_eq (Nat.cast_nonneg _) |>.mp hmf with h | h
  · exact ⟨(m * Nat.pow 2 f.toNat : Nat), by rw [h, Int.cast_natCast]⟩
  · exact ⟨-(m * Nat.pow 2 f.toNat : Nat), by rw [h, Int.cast_neg, Int.cast_natCast]⟩

end TrieFeed.Binary64
