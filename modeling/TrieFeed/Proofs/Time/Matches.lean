import TrieFeed.Proofs.Time.Firings
import TrieFeed.Proofs.Time.Reading
/-!
# Instants of expressions of five fields

What an expression of five fields is usually taken to match is compared with what it fires at once
it is read. The two agree but for days of the week, and for the years that expressions are limited
to.
-/
namespace TrieFeed.Time

/-- A year ends after its leap day at the latest, be it of a century or of an era. -/
theorem dayOfYear_le {dayOfEra year : Nat} (he : dayOfEra < 146097)
    (hy : year = (dayOfEra - dayOfEra / 1460 + dayOfEra / 36524 - dayOfEra / 146096) / 365) :
    dayOfEra - (365 * year + year / 4 - year / 100) ≤ 365 := by
  have hcentury : dayOfEra / 36524 = 0 ∨ dayOfEra / 36524 = 1 ∨ dayOfEra / 36524 = 2 ∨
      dayOfEra / 36524 = 3 ∨ dayOfEra = 146096 := by
    omega
  have hleap : dayOfEra / 1460 ≤ year / 4 + 1 := by omega
  rcases hcentury with h | h | h | h | rfl
  · have hc : year / 100 = 0 := by omega
    omega
  · have hc : year / 100 = 1 := by omega
    omega
  · have hc : year / 100 = 2 := by omega
    omega
  · have hc : year / 100 = 3 := by omega
    omega
  · omega

theorem dateOf_range (day : Int) :
    (1 ≤ (dateOf day).month ∧ (dateOf day).month ≤ 12) ∧
      1 ≤ (dateOf day).day ∧ (dateOf day).day ≤ 31 := by
  have hn : 0 ≤ (day + 719468).fmod 146097 := Int.fmod_nonneg_of_pos _ (by decide)
  have hlt : (day + 719468).fmod 146097 < 146097 := Int.fmod_lt_of_pos _ (by decide)
  rw [dateOf]
  dsimp only
  generalize he : ((day + 719468).fmod 146097).toNat = e
  have he : e < 146097 := by omega
  generalize hy : (e - e / 1460 + e / 36524 - e / 146096) / 365 = y
  have hd := dayOfYear_le he hy.symm
  generalize e - (365 * y + y / 4 - y / 100) = d at hd ⊢
  split <;> omega

theorem weekday_range (day : Int) : 1 ≤ weekday day ∧ weekday day ≤ 7 := by
  have hlt : (day + 4).fmod 7 < 7 := Int.fmod_lt_of_pos _ (by decide)
  rw [weekday]
  omega

namespace Cron

variable {u : Unit} {x : Standard} {f : Entry} {t : Int}

/-! ## Numbers of a field -/

theorem Field.holds_span {first last n : Nat} :
    Field.holds [⟨first, last, 1⟩] n ↔ first ≤ n ∧ n ≤ last := by
  rw [holds, List.any_cons, List.any_nil, Bool.or_false, Span.holds, Nat.mod_one]
  simp only [Bool.and_eq_true, decide_eq_true_eq, beq_self_eq_true, and_true]

theorem Member.holds_span {m : Member} {k : Nat} (hl : u.least ≤ k) (hg : k ≤ u.greatest) :
    (m.span u).holds k ↔ m.Holds u.least k := by
  rw [Span.holds, Bool.and_eq_true, Bool.and_eq_true, decide_eq_true_eq, decide_eq_true_eq,
    beq_iff_eq, and_assoc]
  cases m with
  | every step =>
    dsimp only [span, Holds]
    rw [and_iff_right hl, and_iff_right hg]
  | point n =>
    dsimp only [span, Holds]
    omega
  | range a b step => rfl

theorem Entry.holds_spans {k : Nat} (hl : u.least ≤ k) (hg : k ≤ u.greatest) :
    Field.holds (f.members.map (Member.span u)) k ↔ f.Holds u.least k := by
  rw [Field.holds, List.any_map, List.any_eq_true]
  exact exists_congr fun m => and_congr_right fun _ => Member.holds_span hl hg

theorem Member.Fits.exists_holds {m : Member} {least greatest : Nat} (h : m.Fits least greatest)
    (hle : least ≤ greatest) : ∃ k, (least ≤ k ∧ k ≤ greatest) ∧ m.Holds least k := by
  obtain ⟨-, h⟩ := h
  have hzero {n s : Nat} : (n - n) % s = 0 := by rw [Nat.sub_self, Nat.zero_mod]
  cases m with
  | every step => exact ⟨least, ⟨le_refl _, hle⟩, hzero⟩
  | point n => exact ⟨n.value, h, rfl⟩
  | range a b step =>
    obtain ⟨hl, hab, hg⟩ := h
    exact ⟨a.value, ⟨hl, hab.trans hg⟩, le_refl _, hab, hzero⟩

theorem Entry.exists_holds {least greatest : Nat} (h : ∀ m ∈ f.members, m.Fits least greatest)
    (hle : least ≤ greatest) : ∃ k, (least ≤ k ∧ k ≤ greatest) ∧ f.Holds least k := by
  have hfirst : f.first ∈ f.members := List.mem_cons_self
  obtain ⟨k, hk, hh⟩ := (h f.first hfirst).exists_holds hle
  exact ⟨k, hk, f.first, hfirst, hh⟩

theorem Entry.star_holds (least k : Nat) : star.Holds least k :=
  ⟨.every none, List.mem_cons_self, Nat.mod_one _⟩

/-! ## What can be read -/

theorem Member.fits_weekday_iff {m : Member} (h : m.Fits 0 7) :
    m.Fits 1 7 ↔ m.start? ≠ some 0 := by
  obtain ⟨hs, h⟩ := h
  cases m with
  | every step => exact iff_of_true ⟨hs, trivial⟩ (fun he => nomatch he)
  | point n =>
    have hz : (point n).start? ≠ some 0 ↔ n.value ≠ 0 := not_congr (Option.some_inj)
    rw [hz, Fits]
    dsimp only at h ⊢
    omega
  | range a b step =>
    have hz : (range a b step).start? ≠ some 0 ↔ a.value ≠ 0 := not_congr (Option.some_inj)
    rw [hz, Fits]
    dsimp only at h ⊢
    omega

theorem Standard.Valid.reads_iff (hv : x.Valid) : x.Reads ↔ x.Readable := by
  constructor
  · rintro ⟨h₁, h₂, h₃, h₄, h₅⟩
    refine ⟨fun m hm => ?_, fun m hm => ?_⟩
    · rw [members] at hm
      simp only [List.mem_append] at hm
      rcases hm with (((hm | hm) | hm) | hm) | hm
      · exact (h₁ m hm).2
      · exact (h₂ m hm).2
      · exact (h₃ m hm).2
      · exact (h₄ m hm).2
      · exact (h₅ m hm).2
    · exact (Member.fits_weekday_iff (hv.dayOfWeek m hm)).mp (h₅ m hm).1
  · rintro ⟨hsteps, hdays⟩
    have hstep (m : Member) (hm : m ∈ x.minute.members ∨ m ∈ x.hour.members ∨
        m ∈ x.dayOfMonth.members ∨ m ∈ x.month.members ∨ m ∈ x.dayOfWeek.members) :
        m.step < Nat.pow 2 32 := by
      apply hsteps
      rw [members]
      simp only [List.mem_append]
      tauto
    refine ⟨fun m hm => ⟨hv.minute m hm, ?_⟩, fun m hm => ⟨hv.hour m hm, ?_⟩,
      fun m hm => ⟨hv.dayOfMonth m hm, ?_⟩, fun m hm => ⟨hv.month m hm, ?_⟩, fun m hm => ⟨?_, ?_⟩⟩
    · exact hstep m (.inl hm)
    · exact hstep m (.inr (.inl hm))
    · exact hstep m (.inr (.inr (.inl hm)))
    · exact hstep m (.inr (.inr (.inr (.inl hm))))
    · exact (Member.fits_weekday_iff (hv.dayOfWeek m hm)).mpr (hdays m hm)
    · exact hstep m (.inr (.inr (.inr (.inr hm))))

/-! ## Instants -/

/-- The days of the week of a field, from Sunday as zero; seven is Sunday as well. -/
def Entry.HoldsWeekday (f : Entry) (w : Nat) : Prop := f.Holds 0 w ∨ w = 0 ∧ f.Holds 0 7

/-- The first second of a minute that all fields hold but that for days of the week. -/
structure Standard.Strikes (x : Standard) (t : Int) : Prop where
  second : (clockOf t).second = 0
  minute : x.minute.Holds 0 (clockOf t).minute
  hour : x.hour.Holds 0 (clockOf t).hour
  dayOfMonth : x.dayOfMonth.Holds 1 (dateOf (dayOf t)).day
  month : x.month.Holds 1 (dateOf (dayOf t)).month

/-- What an expression is usually taken to match. -/
def Standard.Matches (x : Standard) (t : Int) : Prop :=
  x.Strikes t ∧ x.dayOfWeek.HoldsWeekday (weekday (dayOf t) - 1)

/-- The years that expressions are limited to. -/
def InYears (t : Int) : Prop := 1970 ≤ (dateOf (dayOf t)).year ∧ (dateOf (dayOf t)).year ≤ 2100

/-- What an expression fires at, with days of the week from Sunday as one. -/
def Standard.Fires (x : Standard) (t : Int) : Prop :=
  InYears t ∧ x.Strikes t ∧ x.dayOfWeek.Holds 1 (weekday (dayOf t))

theorem Standard.fires_iff : x.expression.fires t ↔ x.Fires t := by
  have hc := clockOf_valid t
  obtain ⟨hmonth, hday⟩ := dateOf_range (dayOf t)
  have hweek := weekday_range (dayOf t)
  have hyear : 0 ≤ (dateOf (dayOf t)).year ∧
      x.expression.years.holds (dateOf (dayOf t)).year.toNat ↔ InYears t := by
    change _ ∧ Field.holds [⟨1970, 2100, 1⟩] _ ↔ _
    rw [Field.holds_span, InYears]
    omega
  have hsecond : x.expression.seconds.holds (clockOf t).second ↔ (clockOf t).second = 0 := by
    change Field.holds [⟨0, 0, 1⟩] _ ↔ _
    rw [Field.holds_span]
    omega
  have hminute : x.expression.minutes.holds (clockOf t).minute ↔ _ :=
    Entry.holds_spans (f := x.minute) (u := .minute) (Nat.zero_le _) (Nat.le_of_lt_succ hc.minute)
  have hhour : x.expression.hours.holds (clockOf t).hour ↔ _ :=
    Entry.holds_spans (f := x.hour) (u := .hour) (Nat.zero_le _) (Nat.le_of_lt_succ hc.hour)
  have hday : x.expression.daysOfMonth.holds (dateOf (dayOf t)).day ↔ _ :=
    Entry.holds_spans (f := x.dayOfMonth) (u := .dayOfMonth) hday.1 hday.2
  have hmonth : x.expression.months.holds (dateOf (dayOf t)).month ↔ _ :=
    Entry.holds_spans (f := x.month) (u := .month) hmonth.1 hmonth.2
  have hweek : x.expression.daysOfWeek.holds (weekday (dayOf t)) ↔ _ :=
    Entry.holds_spans (f := x.dayOfWeek) (u := .dayOfWeek) hweek.1 hweek.2
  rw [Expression.fires, Expression.matchesDay, Expression.matchesClock]
  simp only [Bool.and_eq_true, decide_eq_true_eq]
  rw [hyear, hmonth, hday, hweek, hhour, hminute, hsecond]
  constructor
  · rintro ⟨⟨⟨⟨hy, hmo⟩, hd⟩, hw⟩, ⟨hh, hm⟩, hs⟩
    exact ⟨hy, ⟨hs, hm, hh, hd, hmo⟩, hw⟩
  · rintro ⟨hy, ⟨hs, hm, hh, hd, hmo⟩, hw⟩
    exact ⟨⟨⟨⟨hy, hmo⟩, hd⟩, hw⟩, ⟨hh, hm⟩, hs⟩

theorem Standard.expression_bounded (x : Standard) : x.expression.Bounded := fun _ hn =>
  Field.holds_span.mp hn

/-- What comes first after every instant settles which instants there are. -/
theorem of_firstOf {p q : Int → Prop} {next? : Int → Option Int}
    (hp : ∀ t, FirstOf id (fun u => p u ∧ t < u) (next? t))
    (hq : ∀ t, FirstOf id (fun u => q u ∧ t < u) (next? t)) (h : p t) : q t := by
  have hfirst := hp (t - 1)
  have hfirst' := hq (t - 1)
  have hlt : t - 1 < t := Int.sub_one_lt_of_le (Int.le_refl t)
  cases hn : next? (t - 1) with
  | none =>
    rw [hn] at hfirst
    exact (hfirst t ⟨h, hlt⟩).elim
  | some a =>
    rw [hn] at hfirst hfirst'
    have hle : a ≤ t := hfirst.2 t ⟨h, hlt⟩
    have hge : t - 1 < a := hfirst.1.2
    obtain rfl : a = t := by omega
    exact hfirst'.1.1

/-! ## Days of the week -/

/-- A field for days of the week means the same whichever number Sunday has. -/
def Entry.Agrees (f : Entry) : Prop := ∀ w < 7, f.Holds 1 (w + 1) ↔ f.HoldsWeekday w

/-- Stars agree, also with steps. -/
theorem Entry.agrees_of_every (h : ∀ m ∈ f.members, ∃ step, m = .every step) : f.Agrees := by
  intro w _
  constructor
  · rintro ⟨m, hm, hh⟩
    obtain ⟨step, rfl⟩ := h m hm
    exact .inl ⟨_, hm, hh⟩
  · rintro (⟨m, hm, hh⟩ | ⟨rfl, m, hm, -⟩)
    · obtain ⟨step, rfl⟩ := h m hm
      exact ⟨_, hm, hh⟩
    · obtain ⟨step, rfl⟩ := h m hm
      exact ⟨_, hm, Nat.zero_mod _⟩

/-- Numbers and ranges agree only if they hold all days of the week. -/
theorem Entry.agrees_iff_of_numbers (hm : ∀ m ∈ f.members, m.Fits 1 7)
    (hn : ∀ m ∈ f.members, m.start?.isSome) : f.Agrees ↔ ∀ k, 1 ≤ k → k ≤ 7 → f.Holds 1 k := by
  have hleast {k : Nat} : f.Holds 0 k ↔ f.Holds 1 k := by
    refine exists_congr fun m => and_congr_right fun hf => ?_
    have hs := hn m hf
    cases m with
    | every step => cases hs
    | point n => rfl
    | range a b step => rfl
  have hzero : ¬ f.Holds 1 0 := by
    rintro ⟨m, hf, hh⟩
    obtain ⟨-, hfit⟩ := hm m hf
    have hs := hn m hf
    cases m with
    | every step => cases hs
    | point n =>
      have hh : 0 = n.value := hh
      exact absurd hfit.1 (by omega)
    | range a b step =>
      have hh : a.value ≤ 0 := hh.1
      exact absurd hfit.1 (by omega)
  have hagrees : f.Agrees ↔ ∀ w < 7, f.Holds 1 (w + 1) ↔ f.Holds 1 w ∨ w = 0 ∧ f.Holds 1 7 := by
    refine forall_congr' fun w => forall_congr' fun _ => iff_congr Iff.rfl ?_
    rw [HoldsWeekday, hleast, hleast]
  rw [hagrees]
  constructor
  · intro h
    have hstep {w : Nat} (hw : w < 7) (hh : f.Holds 1 w) : f.Holds 1 (w + 1) :=
      (h w hw).mpr (.inl hh)
    have hup {a b : Nat} (hab : a ≤ b) (hb : b ≤ 7) (hh : f.Holds 1 a) : f.Holds 1 b := by
      induction b, hab using Nat.le_induction with
      | base => exact hh
      | succ b _ ih => exact hstep hb (ih (Nat.le_of_succ_le hb))
    obtain ⟨k, hk, hh⟩ := exists_holds hm (by decide)
    have hone : f.Holds 1 1 := (h 0 (by decide)).mpr (.inr ⟨rfl, hup hk.2 (Nat.le_refl 7) hh⟩)
    exact fun k hl hg => hup hl hg hone
  · intro h w hw
    refine iff_of_true (h _ (Nat.le_add_left 1 w) hw) ?_
    rcases Nat.eq_zero_or_pos w with rfl | hpos
    · exact .inr ⟨rfl, h 7 (by decide) (by decide)⟩
    · exact .inl (h w hpos (Nat.le_of_lt hw))

/-- In a leap year every month has every day of the week. -/
theorem exists_day {month w : Nat} (hm : 1 ≤ month ∧ month ≤ 12) (hw : w < 7) : ∃ day,
    (dateOf day).year = 2024 ∧ (dateOf day).month = month ∧ weekday day = w + 1 := by
  obtain ⟨m, rfl⟩ := Nat.exists_eq_add_of_le' hm.1
  have hall : ∀ m < 12, ∀ w < 7, ∃ i < 7,
      (dateOf (19723 + (31 * m - m / 2 + i : Nat))).year = 2024 ∧
      (dateOf (19723 + (31 * m - m / 2 + i : Nat))).month = m + 1 ∧
      weekday (19723 + (31 * m - m / 2 + i : Nat)) = w + 1 := by
    decide +kernel
  obtain ⟨i, -, h⟩ := hall m (Nat.lt_of_succ_le hm.2) w hw
  exact ⟨_, h⟩

/-- An expression fires as it is taken to just if its days of the week agree. -/
theorem Standard.Valid.fires_iff_matches (hv : x.Valid) :
    (∀ t, x.Fires t ↔ x.Matches t ∧ InYears t) ↔ x.dayOfWeek.Agrees := by
  constructor
  · intro h w hw
    rcases hv.day with hstar | hstar
    · obtain ⟨minute, hminute, hm⟩ := Entry.exists_holds hv.minute (by decide)
      obtain ⟨hour, hhour, hh⟩ := Entry.exists_holds hv.hour (by decide)
      obtain ⟨month, hmonth, hmo⟩ := Entry.exists_holds hv.month (by decide)
      obtain ⟨day, hyear, rfl, hweek⟩ := exists_day hmonth hw
      let c : Clock := ⟨hour, minute, 0⟩
      have hc : c.Valid :=
        ⟨Nat.lt_succ_of_le hhour.2, Nat.lt_succ_of_le hminute.2, Nat.succ_pos 59⟩
      have hday := dayOf_instant hc day
      have hclock := clockOf_instant hc day
      have hs : x.Strikes (instant day c) := by
        constructor
        · rw [hclock]
        · rw [hclock]
          exact hm
        · rw [hclock]
          exact hh
        · rw [hstar]
          exact Entry.star_holds 1 _
        · rw [hday]
          exact hmo
      have hy : InYears (instant day c) := by
        rw [InYears, hday, hyear]
        exact ⟨by decide, by decide⟩
      have hiff := h (instant day c)
      rw [Fires, Matches, hday, hweek, Nat.add_sub_cancel, and_iff_right hy, and_iff_right hs,
        and_iff_right hs, and_iff_left hy] at hiff
      exact hiff
    · rw [hstar]
      exact iff_of_true (Entry.star_holds 1 _) (.inl (Entry.star_holds 0 _))
  · intro h t
    obtain ⟨hl, hg⟩ := weekday_range (dayOf t)
    have hw := h (weekday (dayOf t) - 1) (by omega)
    rw [Nat.sub_add_cancel hl] at hw
    rw [Fires, Matches, hw, and_comm]

end Cron

end TrieFeed.Time
