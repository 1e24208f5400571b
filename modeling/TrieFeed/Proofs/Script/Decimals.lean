import TrieFeed.Proofs.Number.Rounding
import TrieFeed.Proofs.Script.Crossing
import TrieFeed.Proofs.Value.Whole
/-!
# Decimals in scripts

Scripts have no decimals. Whole ones of sixty-four bits are whole numbers there; any other becomes
the double next to it, and what comes back is cut from that. So rounding comes before cutting: the
number that is left can be another than that of the decimal.
-/
namespace TrieFeed

namespace Decimal

open Binary64 (signed rounded unitOf IsNearest)

variable {d : Decimal}

theorem pow_scale_ne_zero (d : Decimal) : Nat.pow 10 d.scale ≠ 0 := (Nat.pow_pos (by decide)).ne'

theorem toRat_eq_signed (d : Decimal) :
    d.toRat = signed (d.coefficient < 0) (d.coefficient.natAbs / (Nat.pow 10 d.scale : Nat)) := by
  have hpow : ((Nat.pow 10 d.scale : Nat) : ℚ) = 10 ^ d.scale := by
    rw [Nat.pow_eq, Nat.cast_pow, Nat.cast_ofNat]
  rw [toRat, ← Binary64.signed_natAbs d.coefficient, signed, signed, hpow, ← mul_div_assoc]

theorem magnitude_le (d : Decimal) :
    (d.coefficient.natAbs : ℚ) / (Nat.pow 10 d.scale : Nat) ≤ d.coefficient.natAbs := by
  have hone : (1 : ℚ) ≤ (Nat.pow 10 d.scale : Nat) :=
    Nat.one_le_cast.mpr (Nat.one_le_iff_ne_zero.mpr d.pow_scale_ne_zero)
  exact div_le_self (Nat.cast_nonneg _) hone

theorem magnitude_lt (hc : d.coefficient.natAbs < limit) :
    (d.coefficient.natAbs : ℚ) / (Nat.pow 10 d.scale : Nat) < 2 ^ 96 := by
  have hlimit : (d.coefficient.natAbs : ℚ) < 2 ^ 96 := by exact_mod_cast hc
  exact d.magnitude_le.trans_lt hlimit

/-- The double of a decimal is the nearest one. -/
theorem toBinary64_isNearest (hn : d.coefficient ≠ 0) (hc : d.coefficient.natAbs < limit) :
    IsNearest d.toRat d.toBinary64 (signed (d.coefficient < 0)
      (rounded d.coefficient.natAbs (Nat.pow 10 d.scale))) := by
  have hrange := (magnitude_lt hc).trans (pow_lt_pow_right₀ one_lt_two (show 96 < 1023 by decide))
  rw [toRat_eq_signed]
  exact Binary64.ofRatio_isNearest _ (Int.natAbs_ne_zero.mpr hn) d.pow_scale_ne_zero hrange

/-- Whether a decimal is a whole number of sixty-four bits. -/
def IsWord (d : Decimal) : Prop := d.isWhole ∧ Numeral.fitsSigned 64 d.trunc

theorem coefficient_ne_zero (h : ¬d.IsWord) : d.coefficient ≠ 0 := by
  intro hz
  have htrunc : d.trunc = 0 := by rw [trunc, hz, Int.zero_tdiv]
  refine h ⟨?_, by rw [htrunc]; rfl⟩
  rw [isWhole, hz, Int.natAbs_zero, Nat.zero_mod]
  rfl

theorem toRat_of_isWhole (h : d.isWhole) : d.toRat = d.trunc := by
  have hdvd : (Nat.pow 10 d.scale : Int) ∣ d.coefficient :=
    Int.natCast_dvd.mpr (Nat.dvd_of_mod_eq_zero (beq_iff_eq.mp h))
  have hmul : d.trunc * (Nat.pow 10 d.scale : Int) = d.coefficient := Int.tdiv_mul_cancel hdvd
  have hpow : (10 : ℚ) ^ d.scale ≠ 0 := pow_ne_zero _ (by norm_num)
  rw [toRat, div_eq_iff hpow]
  exact_mod_cast hmul.symm

/-- Decimals are far above the least doubles. -/
theorem unitOf_ne_least (hn : d.coefficient ≠ 0) (hs : d.scale ≤ maxScale) :
    unitOf d.coefficient.natAbs (Nat.pow 10 d.scale) ≠ -1074 := by
  have hc := Int.natAbs_ne_zero.mpr hn
  have hden : Nat.pow 10 d.scale ≤ d.coefficient.natAbs * Nat.pow 2 94 :=
    calc Nat.pow 10 d.scale ≤ Nat.pow 10 28 := Nat.pow_le_pow_right (by decide) hs
      _ ≤ Nat.pow 2 94 := by decide
      _ ≤ d.coefficient.natAbs * Nat.pow 2 94 :=
        Nat.le_mul_of_pos_left _ (Nat.pos_of_ne_zero hc)
  have hlow : (2 : ℚ) ^ (-94 : Int) ≤ d.coefficient.natAbs / (Nat.pow 10 d.scale : Nat) := by
    rwa [← Binary64.two_zpow_le_ratio_iff _ d.pow_scale_ne_zero, if_neg (by decide)]
  have hlt := hlow.trans_lt (Binary64.floorLog2_spec hc d.pow_scale_ne_zero).2
  have hlog := (zpow_lt_zpow_iff_right₀ one_lt_two).mp hlt
  rw [unitOf]
  omega

/-- A fraction over `den` that is no whole number is as far as that from the whole numbers, and a
value nearer to it than that lies between the same two. -/
theorem floor_eq_of_near {c den : Nat} {p : ℚ} (hd : den ≠ 0) (hc : c % den ≠ 0)
    (hp : |p - c / den| * den < 1) : ⌊p⌋ = ⌊(c : ℚ) / den⌋ := by
  have hden : (0 : ℚ) < den := Nat.cast_pos.mpr (Nat.pos_of_ne_zero hd)
  have hsplit : (c : ℚ) = den * (c / den : Nat) + (c % den : Nat) := by
    exact_mod_cast (Nat.div_add_mod c den).symm
  have hone : (1 : ℚ) ≤ (c % den : Nat) := Nat.one_le_cast.mpr (Nat.one_le_iff_ne_zero.mpr hc)
  have hlast : ((c % den : Nat) : ℚ) + 1 ≤ den := by
    exact_mod_cast Nat.mod_lt c (Nat.pos_of_ne_zero hd)
  rw [← Binary64.abs_mul_sub_eq hden, abs_lt] at hp
  rw [Rat.floor_natCast_div_natCast, Int.floor_eq_iff, ← Int.natCast_div, Int.cast_natCast]
  constructor
  · refine le_of_mul_le_mul_right ?_ hden
    linarith
  · refine lt_of_mul_lt_mul_right ?_ hden.le
    linarith

/-- Rounding a decimal of at most fifty-three bits does not reach another whole number. -/
theorem isTrunc_nearest (hw : ¬d.isWhole) (hb : d.coefficient.natAbs < 2 ^ 53)
    (hs : d.scale ≤ maxScale) : IsTrunc (signed (d.coefficient < 0)
      (rounded d.coefficient.natAbs (Nat.pow 10 d.scale))) d.trunc := by
  have hn := coefficient_ne_zero fun h => hw h.1
  have hd := d.pow_scale_ne_zero
  have hden : (0 : ℚ) < (Nat.pow 10 d.scale : Nat) := Nat.cast_pos.mpr (Nat.pos_of_ne_zero hd)
  have hc : d.coefficient.natAbs % Nat.pow 10 d.scale ≠ 0 := fun h => hw (beq_iff_eq.mpr h)
  have hcut := d.isTrunc_trunc
  have herror := Binary64.rounded_error (Int.natAbs_ne_zero.mpr hn) hd (unitOf_ne_least hn hs)
  have hsmall : (d.coefficient.natAbs : ℚ) < 2 ^ 53 := by exact_mod_cast hb
  rw [toRat_eq_signed, Binary64.isTrunc_signed,
    IsTrunc.iff_floor (Binary64.ratio_nonneg _ _)] at hcut
  rw [Binary64.isTrunc_signed, IsTrunc.iff_floor (Binary64.rounded_nonneg _ _), hcut, eq_comm]
  refine floor_eq_of_near hd hc ?_
  rw [le_div_iff₀ hden] at herror
  linarith

end Decimal

namespace Value

theorem toItem_echoedDouble {x : Binary64} {p : ℚ} {n : Int} (hx : x.toRat? = some p)
    (hn : IsTrunc p n) (hr : -2 ^ 127 ≤ n ∧ n < 2 ^ 127) :
    (echoedDouble x).toItem = .ok (.int n) := by
  rw [echoedDouble]
  cases hw : x.whole? with
  | none => exact toItem_float_iff.mpr ⟨Binary64.trunc?_eq_some_iff.mpr ⟨p, hx, hn⟩, hr⟩
  | some m =>
    rw [Binary64.whole?_eq, Option.filter_eq_some_iff] at hw
    cases hx.symm.trans (Binary64.integral?_eq_some_iff.mp hw.1)
    rw [hn.unique (.intCast m)]
    rfl

end Value

namespace Script

open Binary64 (IsNearest)

variable {d : Decimal}

theorem valueOf_decimal (d : Decimal) :
    valueOf (datumOf (.decimal d)) = .ok (Value.echoed (.decimal d)) :=
  valueThrough_of_value (view_datumOfDecimal d)

/-- Whether a decimal that a script hands back has the item that it had before. -/
def KeepsItem (d : Decimal) : Prop :=
  ∃ back item, valueOf (datumOf (.decimal d)) = .ok back ∧ back.toItem = .ok item ∧
    (Value.decimal d).toItem = .ok item

theorem toItem_echoed_word (h : d.IsWord) :
    (Value.echoed (.decimal d)).toItem = .ok (.int d.trunc) := by
  rw [Decimal.IsWord] at h
  rw [Value.echoed, if_pos h]
  rfl

theorem toItem_echoed_nearest {p : ℚ} {n : Int} (h : ¬d.IsWord)
    (hc : d.coefficient.natAbs < Decimal.limit) (hp : IsNearest d.toRat d.toBinary64 p)
    (hn : IsTrunc p n) : (Value.echoed (.decimal d)).toItem = .ok (.int n) := by
  have hd : |d.toRat| < 2 ^ 96 := by
    rw [Decimal.toRat_eq_signed, Binary64.abs_signed, abs_of_nonneg (Binary64.ratio_nonneg _ _)]
    exact Decimal.magnitude_lt hc
  have habs : |(n : ℚ)| < 2 ^ 97 := by
    have hle := hn.within.trans hp.abs_le
    linarith
  have hrange : |n| < 2 ^ 97 := by exact_mod_cast habs
  rw [abs_lt] at hrange
  rw [Decimal.IsWord] at h
  rw [Value.echoed, if_neg h]
  exact Value.toItem_echoedDouble hp.1 hn (by omega)

theorem toItem_decimal (hc : d.coefficient.natAbs < Decimal.limit) :
    (Value.decimal d).toItem = .ok (.int d.trunc) := by
  rw [Value.toItem, Value.wholePartOf_decimal hc]
  rfl

theorem keepsItem_iff_toItem_echoed (hc : d.coefficient.natAbs < Decimal.limit) :
    KeepsItem d ↔ (Value.echoed (.decimal d)).toItem = .ok (.int d.trunc) := by
  rw [KeepsItem, valueOf_decimal, toItem_decimal hc]
  constructor
  · rintro ⟨back, item, hb, hi, ht⟩
    cases hb
    cases ht
    exact hi
  · exact fun h => ⟨_, _, rfl, h, rfl⟩

/-- What a decimal comes back as that is no whole number of sixty-four bits. -/
theorem exists_nearest (h : ¬d.IsWord) (hc : d.coefficient.natAbs < Decimal.limit) :
    ∃ p n, IsNearest d.toRat d.toBinary64 p ∧ IsTrunc p n ∧
      (Value.echoed (.decimal d)).toItem = .ok (.int n) := by
  have hp := Decimal.toBinary64_isNearest (Decimal.coefficient_ne_zero h) hc
  obtain ⟨n, hn⟩ := Binary64.exists_trunc hp.1
  obtain ⟨_, hq, hcut⟩ := Binary64.trunc?_eq_some_iff.mp hn
  cases hp.1.symm.trans hq
  exact ⟨_, n, hp, hcut, toItem_echoed_nearest h hc hp hcut⟩

theorem keepsItem_iff (hc : d.coefficient.natAbs < Decimal.limit) :
    KeepsItem d ↔ d.IsWord ∨ ∃ p, IsNearest d.toRat d.toBinary64 p ∧ IsTrunc p d.trunc := by
  rw [keepsItem_iff_toItem_echoed hc]
  by_cases h : d.IsWord
  · exact iff_of_true (toItem_echoed_word h) (.inl h)
  · obtain ⟨p, n, hp, hn, hi⟩ := exists_nearest h hc
    rw [hi, or_iff_right h]
    constructor
    · intro he
      cases he
      exact ⟨p, hp, hn⟩
    · rintro ⟨q, hq, ht⟩
      cases hp.1.symm.trans hq.1
      rw [hn.unique ht]

/-- A whole number beyond sixty-four bits is kept if it is a double. -/
theorem keepsItem_whole_iff (hc : d.coefficient.natAbs < Decimal.limit) (hw : d.isWhole) :
    KeepsItem d ↔ Numeral.fitsSigned 64 d.trunc ∨ ∃ x : Binary64, x.toRat? = some d.toRat := by
  rw [keepsItem_iff hc, Decimal.IsWord, and_iff_right hw]
  by_cases hf : Numeral.fitsSigned 64 d.trunc
  · exact iff_of_true (.inl hf) (.inl hf)
  rw [or_iff_right hf, or_iff_right hf]
  constructor
  · rintro ⟨p, hp, ht⟩
    have hlarge : (2 : ℚ) ^ 53 ≤ |p| := by
      have hout : 2 ^ 53 ≤ |d.trunc| := by
        rw [Numeral.fitsSigned_iff] at hf
        rw [le_abs]
        omega
      have hcast : (2 : ℚ) ^ 53 ≤ |(d.trunc : ℚ)| := by exact_mod_cast hout
      exact hcast.trans ht.within
    obtain ⟨k, rfl⟩ := Binary64.exists_int_of_large hp.1 hlarge
    refine ⟨d.toBinary64, ?_⟩
    rw [hp.1, Decimal.toRat_of_isWhole hw, ht.unique (.intCast k)]
  · rintro ⟨x, hx⟩
    obtain ⟨p, _, hp, -, -⟩ := exists_nearest (fun h => hf h.2) hc
    have he := hp.eq_of_exact hx
    exact ⟨p, hp, he ▸ d.isTrunc_trunc⟩

theorem keepsItem_of_small (hs : d.scale ≤ Decimal.maxScale)
    (hb : d.coefficient.natAbs < 2 ^ 53) : KeepsItem d := by
  have hc : d.coefficient.natAbs < Decimal.limit := hb.trans (by decide)
  rw [keepsItem_iff hc]
  by_cases hw : d.isWhole
  · have hle := d.natAbs_trunc_le
    exact .inl ⟨hw, Numeral.fitsSigned_iff.mpr (by omega)⟩
  · have hword : ¬d.IsWord := fun h => hw h.1
    have hp := Decimal.toBinary64_isNearest (Decimal.coefficient_ne_zero hword) hc
    exact .inr ⟨_, hp, Decimal.isTrunc_nearest hw hb hs⟩

/-- A decimal always comes back, and with an item: its whole part if it is a whole number of
sixty-four bits, and else the whole part of the nearest double. So it keeps the item that it had
exactly if these two whole parts are the same. Whole numbers beyond sixty-four bits keep theirs
exactly if they are doubles, and decimals of at most fifty-three bits always do. -/
theorem decimal_crossing (hc : d.coefficient.natAbs < Decimal.limit)
    (hs : d.scale ≤ Decimal.maxScale) :
    (∃ back n, valueOf (datumOf (.decimal d)) = .ok back ∧ back.toItem = .ok (.int n) ∧
      (d.IsWord ∧ n = d.trunc ∨
        ¬d.IsWord ∧ ∃ p, IsNearest d.toRat d.toBinary64 p ∧ IsTrunc p n)) ∧
    (KeepsItem d ↔ d.IsWord ∨ ∃ p, IsNearest d.toRat d.toBinary64 p ∧ IsTrunc p d.trunc) ∧
    (d.isWhole → (KeepsItem d ↔
      Numeral.fitsSigned 64 d.trunc ∨ ∃ x : Binary64, x.toRat? = some d.toRat)) ∧
    (d.coefficient.natAbs < 2 ^ 53 → KeepsItem d) := by
  refine ⟨?_, keepsItem_iff hc, keepsItem_whole_iff hc, keepsItem_of_small hs⟩
  by_cases h : d.IsWord
  · exact ⟨_, d.trunc, valueOf_decimal d, toItem_echoed_word h, .inl ⟨h, rfl⟩⟩
  · obtain ⟨p, n, hp, hn, hi⟩ := exists_nearest h hc
    exact ⟨_, n, valueOf_decimal d, hi, .inr ⟨h, p, hp, hn⟩⟩

/-- A whole number beyond sixty-four bits that is no double, and a fraction just below one. -/
def wideOdd : Decimal := ⟨9223372036854775809, 0⟩

def belowOne : Decimal := ⟨99999999999999999999, 20⟩

/-- The first comes back as the even number before it, and the second as one. -/
theorem decimal_crossing_rounds :
    (wideOdd.coefficient.natAbs < Decimal.limit ∧ wideOdd.scale ≤ Decimal.maxScale) ∧
    (belowOne.coefficient.natAbs < Decimal.limit ∧ belowOne.scale ≤ Decimal.maxScale) ∧
    valueOf (datumOf (.decimal wideOdd)) = .ok (.float ⟨0x43e0000000000000⟩) ∧
    valueOf (datumOf (.decimal belowOne)) = .ok (.int 1) ∧
    ¬KeepsItem wideOdd ∧ ¬KeepsItem belowOne := by
  have hwide : wideOdd.coefficient.natAbs < Decimal.limit ∧ wideOdd.scale ≤ Decimal.maxScale := by
    decide
  have hbelow : belowOne.coefficient.natAbs < Decimal.limit ∧
      belowOne.scale ≤ Decimal.maxScale := by
    decide
  have hcut {d : Decimal} {n : Int} (hn : d.toBinary64.integral? = some n) (hne : d.trunc ≠ n) :
      ¬∃ p, IsNearest d.toRat d.toBinary64 p ∧ IsTrunc p d.trunc := by
    rintro ⟨p, hp, ht⟩
    cases hp.1.symm.trans (Binary64.integral?_eq_some_iff.mp hn)
    exact hne (ht.unique (.intCast n))
  refine ⟨hwide, hbelow, ?_, ?_, ?_, ?_⟩
  · have hdouble : wideOdd.toBinary64 = ⟨0x43e0000000000000⟩ := by decide +kernel
    have hnone : (⟨0x43e0000000000000⟩ : Binary64).whole? = none := by
      rw [Binary64.whole?_eq]
      decide +kernel
    rw [valueOf_decimal, Value.echoed, if_neg (by decide), hdouble, Value.echoedDouble, hnone]
    rfl
  · have hone : belowOne.toBinary64.whole? = some 1 := by
      rw [Binary64.whole?_eq]
      decide +kernel
    rw [valueOf_decimal, Value.echoed, if_neg (by decide), Value.echoedDouble, hone]
    rfl
  · rw [(decimal_crossing hwide.1 hwide.2).2.1]
    rintro (h | h)
    · exact absurd h.2 (by decide)
    · exact hcut (n := 9223372036854775808) (by decide +kernel) (by decide) h
  · rw [(decimal_crossing hbelow.1 hbelow.2).2.1]
    rintro (h | h)
    · exact absurd h.1 (by decide)
    · exact hcut (n := 1) (by decide +kernel) (by decide) h

end Script

end TrieFeed
