import TrieFeed.Time.Cron
/-!
# Days and times of day

An instant is a day and a time of day, in that order. Years follow days, so that the years of cron
expressions bound the days on which they fire.
-/
namespace TrieFeed.Time

/-! ## Instants -/

structure Clock.Valid (c : Clock) : Prop where
  hour : c.hour < 24
  minute : c.minute < 60
  second : c.second < 60

/-- The seconds since midnight at a time of day. -/
def Clock.seconds (c : Clock) : Nat := c.hour * 3600 + c.minute * 60 + c.second

theorem dayOf_eq (t : Int) : dayOf t = t / 86400 := Int.fdiv_eq_ediv_of_nonneg t (by decide)

theorem secondOfDay_eq (t : Int) : (secondOfDay t : Int) = t % 86400 := by
  have hn : 0 ≤ t % 86400 := Int.emod_nonneg t (by decide)
  rw [secondOfDay, daySeconds, Int.fmod_eq_emod_of_nonneg t (by decide), Int.toNat_of_nonneg hn]

theorem seconds_clockOf (t : Int) : (clockOf t).seconds = secondOfDay t := by
  rw [Clock.seconds, clockOf]
  dsimp only
  omega

theorem clockOf_valid (t : Int) : (clockOf t).Valid := by
  have hs := secondOfDay_eq t
  have hlt : secondOfDay t < 86400 := by
    have hm : t % 86400 < 86400 := Int.emod_lt_of_pos t (by decide)
    omega
  constructor
  · exact Nat.div_lt_of_lt_mul hlt
  · exact Nat.mod_lt _ (by decide)
  · exact Nat.mod_lt _ (by decide)

theorem Clock.Valid.seconds_lt {c : Clock} (h : c.Valid) : c.seconds < 86400 := by
  have hh := h.hour
  have hm := h.minute
  have hs := h.second
  rw [Clock.seconds]
  omega

/-- Times of day are told apart by their seconds since midnight. -/
theorem Clock.Valid.ext {c d : Clock} (hc : c.Valid) (hd : d.Valid) (h : c.seconds = d.seconds) :
    c = d := by
  obtain ⟨hour, minute, second⟩ := c
  obtain ⟨hour', minute', second'⟩ := d
  obtain ⟨hh, hm, hs⟩ := hc
  obtain ⟨hh', hm', hs'⟩ := hd
  dsimp only [Clock.seconds] at h hh hm hs hh' hm' hs'
  congr 1 <;> omega

namespace Cron

theorem instant_eq (day : Int) (c : Clock) : instant day c = day * 86400 + c.seconds := rfl

theorem instant_dayOf_clockOf (t : Int) : instant (dayOf t) (clockOf t) = t := by
  rw [instant_eq, seconds_clockOf, secondOfDay_eq, dayOf_eq]
  omega

theorem dayOf_instant {c : Clock} (h : c.Valid) (day : Int) : dayOf (instant day c) = day := by
  have hlt := h.seconds_lt
  rw [dayOf_eq, instant_eq]
  omega

theorem clockOf_instant {c : Clock} (h : c.Valid) (day : Int) : clockOf (instant day c) = c := by
  have hlt := h.seconds_lt
  have hs := secondOfDay_eq (instant day c)
  refine (clockOf_valid _).ext h ?_
  rw [seconds_clockOf]
  rw [instant_eq] at hs ⊢
  omega

end Cron

/-! ## Years -/

/-- The year of a day, counted from March within an era of four hundred years; January and February
are in the next one. -/
theorem year_dateOf (day : Int) : ∃ (era : Int) (dayOfEra yearOfEra monthFromMarch : Nat),
    day + 719468 = era * 146097 + dayOfEra ∧ dayOfEra < 146097 ∧
    yearOfEra = (dayOfEra - dayOfEra / 1460 + dayOfEra / 36524 - dayOfEra / 146096) / 365 ∧
    monthFromMarch =
      (5 * (dayOfEra - (365 * yearOfEra + yearOfEra / 4 - yearOfEra / 100)) + 2) / 153 ∧
    (dateOf day).year = yearOfEra + era * 400 +
      if 10 ≤ monthFromMarch ∧ monthFromMarch ≤ 11 then 1 else 0 := by
  have hn : 0 ≤ (day + 719468) % 146097 := Int.emod_nonneg _ (by decide)
  have hlt : (day + 719468) % 146097 < 146097 := Int.emod_lt_of_pos _ (by decide)
  have hd := Int.mul_ediv_add_emod (day + 719468) 146097
  refine ⟨(day + 719468) / 146097, ((day + 719468) % 146097).toNat, _, _, by omega, by omega, rfl,
    rfl, ?_⟩
  rw [dateOf, Int.fdiv_eq_ediv_of_nonneg _ (by decide), Int.fmod_eq_emod_of_nonneg _ (by decide)]
  dsimp only
  generalize ((day + 719468) % 146097).toNat = e
  generalize (e - e / 1460 + e / 36524 - e / 146096) / 365 = y
  generalize (5 * (e - (365 * y + y / 4 - y / 100)) + 2) / 153 = m
  have hmonth : (if m < 10 then m + 3 else m - 9) ≤ 2 ↔ 10 ≤ m ∧ m ≤ 11 := by
    split <;> omega
  by_cases hm : 10 ≤ m ∧ m ≤ 11
  · rw [if_pos hm, if_pos (hmonth.mpr hm)]
  · rw [if_neg hm, if_neg (mt hmonth.mp hm), Int.add_zero]

/-- Days before 1970 are in years before it. -/
theorem year_lt_of_neg {day : Int} (h : day < 0) : (dateOf day).year < 1970 := by
  obtain ⟨era, e, y, m, hd, he, hy, hm, hyear⟩ := year_dateOf day
  have hera : era ≤ 4 := by omega
  have hlast : y ≤ 399 := by omega
  rw [hyear]
  rcases Int.lt_or_eq_of_le hera with hbefore | rfl
  · split <;> omega
  · have hy : y ≤ 369 := by omega
    have hnone : y = 369 → ¬(10 ≤ m ∧ m ≤ 11) := by omega
    split
    · rename_i hnext
      have hne : y ≠ 369 := fun hy => hnone hy hnext
      omega
    · omega

/-- Days from that of the end on are in years that no expression has. -/
theorem year_gt_of_endDay_le {day : Int} (h : Cron.endDay ≤ day) : 2100 < (dateOf day).year := by
  obtain ⟨era, e, y, m, hd, he, hy, hm, hyear⟩ := year_dateOf day
  have h : 47847 ≤ day := h
  have hera : 5 ≤ era := by omega
  rw [hyear]
  rcases Int.lt_or_eq_of_le hera with hafter | rfl
  · split <;> omega
  · have hy : 100 ≤ y := by omega
    have hnext : y = 100 → 10 ≤ m ∧ m ≤ 11 := by omega
    split
    · omega
    · rename_i hnone
      have hne : y ≠ 100 := fun hy => hnone (hnext hy)
      omega

end TrieFeed.Time
