import TrieFeed.Proofs.Time.Calendar
/-!
# Firings of cron expressions

The next firing of an expression is looked for in the rest of its day, and then on the days after it
until the years of expressions are over. It is the first instant that the expression matches.
-/
namespace TrieFeed.Time

/-! ## First choices -/

/-- A choice that comes first, by a key, among all that have a property; there is none if nothing
has it. -/
def FirstOf {α κ : Type} [LE κ] (key : α → κ) (p : α → Prop) : Option α → Prop
  | some a => p a ∧ ∀ b, p b → key a ≤ key b
  | none => ∀ b, ¬ p b

namespace FirstOf

variable {α β γ κ μ ν : Type} [LE κ] [LE μ] [LE ν] {key : α → κ} {p q : α → Prop}
  {first second : Option α}

theorem congr (h : FirstOf key p first) (hpq : ∀ a, p a ↔ q a) : FirstOf key q first := by
  have he : p = q := funext fun a => propext (hpq a)
  exact he ▸ h

/-- Of two choices the first one is taken, if all that it is made from comes first. -/
theorem orElse (h₁ : FirstOf key p first) (h₂ : FirstOf key q second)
    (hle : ∀ a b, p a → q b → key a ≤ key b) :
    FirstOf key (fun a => p a ∨ q a) (first <|> second) := by
  cases first with
  | some a => exact ⟨.inl h₁.1, fun b hb => hb.elim (h₁.2 b) (hle a b h₁.1)⟩
  | none =>
    exact h₂.congr fun a => ⟨.inr, fun h => h.resolve_left (h₁ a)⟩

/-- A first choice stays one among more, none of which comes before all that there were. -/
theorem widen {key : α → Int} (h : FirstOf key p first) (hpq : ∀ a, p a → q a)
    (hle : ∀ b, q b → ∃ a, p a ∧ key a ≤ key b) : FirstOf key q first := by
  cases first with
  | some a =>
    refine ⟨hpq a h.1, fun b hb => ?_⟩
    obtain ⟨a', ha', hk⟩ := hle b hb
    exact Int.le_trans (h.2 a' ha') hk
  | none =>
    intro b hb
    obtain ⟨a, ha, -⟩ := hle b hb
    exact h a ha

theorem ite {c : Prop} [Decidable c] (hc : c → FirstOf key p first) (hn : ¬c → ∀ a, ¬ p a) :
    FirstOf key p (if c then first else none) := by
  split
  · rename_i h
    exact hc h
  · rename_i h
    exact hn h

theorem map {f : α → β} {key' : β → μ} {r : β → Prop} (h : FirstOf key p first)
    (hr : ∀ b, r b ↔ ∃ a, p a ∧ f a = b)
    (hf : ∀ a a', key a ≤ key a' → key' (f a) ≤ key' (f a')) :
    FirstOf key' r (first.map f) := by
  cases first with
  | some a =>
    refine ⟨(hr _).mpr ⟨a, h.1, rfl⟩, fun b hb => ?_⟩
    obtain ⟨a', ha', rfl⟩ := (hr b).mp hb
    exact hf a a' (h.2 a' ha')
  | none =>
    intro b hb
    obtain ⟨a, ha, -⟩ := (hr b).mp hb
    exact h a ha

/-- Two choices that do not depend on each other. -/
theorem pair {other : Option β} {key₂ : β → μ} {key₃ : γ → ν} {q : β → Prop} {r : γ → Prop}
    {f : α → β → γ} (h : FirstOf key p first) (h₂ : FirstOf key₂ q other)
    (hr : ∀ c, r c ↔ ∃ a b, p a ∧ q b ∧ f a b = c)
    (hf : ∀ a a' b b', key a ≤ key a' → key₂ b ≤ key₂ b' → key₃ (f a b) ≤ key₃ (f a' b')) :
    FirstOf key₃ r (first.bind fun a => other.map (f a)) := by
  cases first with
  | none =>
    intro c hc
    obtain ⟨a, -, ha, -⟩ := (hr c).mp hc
    exact h a ha
  | some a =>
    cases other with
    | none =>
      intro c hc
      obtain ⟨-, b, -, hb, -⟩ := (hr c).mp hc
      exact h₂ b hb
    | some b =>
      refine ⟨(hr _).mpr ⟨a, b, h.1, h₂.1, rfl⟩, fun c hc => ?_⟩
      obtain ⟨a', b', ha', hb', rfl⟩ := (hr c).mp hc
      exact hf a a' b b' (h.2 a' ha') (h₂.2 b' hb')

end FirstOf

namespace Cron

variable {e : Expression} {c : Clock}

/-! ## Times of day -/

theorem Field.next?_first (f : Field) (bound n : Nat) :
    FirstOf id (fun k => n ≤ k ∧ k < bound ∧ f.holds k) (f.next? bound n) := by
  rw [Field.next?]
  cases hf : (List.range (bound - n)).find? fun i => f.holds (n + i) with
  | none =>
    rintro k ⟨hn, hb, hk⟩
    have hm := List.find?_range_eq_none.mp hf (k - n) (by omega)
    rw [Nat.add_sub_cancel' hn, hk] at hm
    cases hm
  | some i =>
    obtain ⟨hh, hi, hbefore⟩ := List.find?_range_eq_some.mp hf
    have hi := List.mem_range.mp hi
    have hb : n + i < bound := by omega
    refine ⟨⟨Nat.le_add_right n i, hb, hh⟩, fun k ⟨hn, _, hk⟩ => ?_⟩
    refine Nat.le_of_not_lt fun hlt => ?_
    have hlt : k < n + i := hlt
    have hm := hbefore (k - n) (by omega)
    rw [Nat.add_sub_cancel' hn, hk] at hm
    cases hm

/-- A time of day at which an expression fires, on a day on which it does. -/
def Expression.Strikes (e : Expression) (c : Clock) : Prop := c.Valid ∧ e.matchesClock c

theorem strikes_iff {h m s : Nat} : e.Strikes ⟨h, m, s⟩ ↔
    (h < 24 ∧ e.hours.holds h) ∧ (m < 60 ∧ e.minutes.holds m) ∧ s < 60 ∧ e.seconds.holds s := by
  rw [Expression.Strikes, Expression.matchesClock, Bool.and_eq_true, Bool.and_eq_true]
  constructor
  · rintro ⟨⟨hh, hm, hs⟩, ⟨hh', hm'⟩, hs'⟩
    exact ⟨⟨hh, hh'⟩, ⟨hm, hm'⟩, hs, hs'⟩
  · rintro ⟨⟨hh, hh'⟩, ⟨hm, hm'⟩, hs, hs'⟩
    exact ⟨⟨hh, hm, hs⟩, ⟨hh', hm'⟩, hs'⟩

/-- The rest of a minute. -/
theorem sameMinute_first (hc : c.Valid) :
    FirstOf Clock.seconds
      (fun d => e.Strikes d ∧ d.hour = c.hour ∧ d.minute = c.minute ∧ c.second ≤ d.second)
      (if e.hours.holds c.hour && e.minutes.holds c.minute then
        (e.seconds.next? 60 c.second).map fun s => ⟨c.hour, c.minute, s⟩
      else none) := by
  refine .ite (fun hh => ?_) fun hn => ?_
  · obtain ⟨hh, hm⟩ := Bool.and_eq_true_iff.mp hh
    refine (Field.next?_first e.seconds 60 c.second).map (fun d => ?_) fun s s' hs => ?_
    · obtain ⟨h, m, s⟩ := d
      rw [strikes_iff]
      constructor
      · rintro ⟨⟨-, -, hs, hs'⟩, rfl, rfl, hle⟩
        exact ⟨s, ⟨hle, hs, hs'⟩, rfl⟩
      · rintro ⟨s, ⟨hle, hs, hs'⟩, hd⟩
        cases hd
        exact ⟨⟨⟨hc.hour, hh⟩, ⟨hc.minute, hm⟩, hs, hs'⟩, rfl, rfl, hle⟩
    · exact Nat.add_le_add_left hs _
  · rintro ⟨h, m, s⟩ ⟨hd, rfl, rfl, -⟩
    obtain ⟨⟨-, hh⟩, ⟨-, hm⟩, -⟩ := strikes_iff.mp hd
    exact hn (Bool.and_eq_true_iff.mpr ⟨hh, hm⟩)

/-- The rest of an hour, after its minute. -/
theorem sameHour_first (hc : c.Valid) :
    FirstOf Clock.seconds
      (fun d => e.Strikes d ∧ d.hour = c.hour ∧ c.minute < d.minute)
      (if e.hours.holds c.hour then
        (e.minutes.next? 60 (c.minute + 1)).bind fun m =>
          (e.seconds.next? 60 0).map fun s => ⟨c.hour, m, s⟩
      else none) := by
  refine .ite (fun hh => ?_) fun hn => ?_
  · refine (Field.next?_first e.minutes 60 (c.minute + 1)).pair (Field.next?_first e.seconds 60 0)
      (fun d => ?_) fun m m' s s' hm hs => ?_
    · obtain ⟨h, m, s⟩ := d
      rw [strikes_iff]
      constructor
      · rintro ⟨⟨-, ⟨hm, hm'⟩, hs, hs'⟩, rfl, hlt⟩
        exact ⟨m, s, ⟨hlt, hm, hm'⟩, ⟨Nat.zero_le s, hs, hs'⟩, rfl⟩
      · rintro ⟨m, s, ⟨hlt, hm, hm'⟩, ⟨-, hs, hs'⟩, hd⟩
        cases hd
        exact ⟨⟨⟨hc.hour, hh⟩, ⟨hm, hm'⟩, hs, hs'⟩, rfl, hlt⟩
    · dsimp only [id, Clock.seconds] at hm hs ⊢
      omega
  · rintro ⟨h, m, s⟩ ⟨hd, rfl, -⟩
    exact hn (strikes_iff.mp hd).1.2

/-- The rest of a day, after its hour. -/
theorem laterHour_first :
    FirstOf Clock.seconds (fun d => e.Strikes d ∧ c.hour < d.hour)
      ((e.hours.next? 24 (c.hour + 1)).bind fun h =>
        (e.minutes.next? 60 0).bind fun m => (e.seconds.next? 60 0).map fun s => ⟨h, m, s⟩) := by
  let inHour : Option (Nat × Nat) :=
    (e.minutes.next? 60 0).bind fun m => (e.seconds.next? 60 0).map fun s => (m, s)
  have hin : FirstOf (fun x : Nat × Nat => x.1 * 60 + x.2)
      (fun x => (x.1 < 60 ∧ e.minutes.holds x.1) ∧ x.2 < 60 ∧ e.seconds.holds x.2) inHour := by
    refine (Field.next?_first e.minutes 60 0).pair (Field.next?_first e.seconds 60 0)
      (fun x => ⟨?_, ?_⟩) fun m m' s s' hm hs => ?_
    · rintro ⟨⟨hm, hm'⟩, hs, hs'⟩
      exact ⟨x.1, x.2, ⟨Nat.zero_le _, hm, hm'⟩, ⟨Nat.zero_le _, hs, hs'⟩, rfl⟩
    · rintro ⟨m, s, ⟨-, hm, hm'⟩, ⟨-, hs, hs'⟩, rfl⟩
      exact ⟨⟨hm, hm'⟩, hs, hs'⟩
    · dsimp only [id] at hm hs ⊢
      omega
  have heq (h : Nat) : ((e.minutes.next? 60 0).bind fun m =>
      (e.seconds.next? 60 0).map fun s => (⟨h, m, s⟩ : Clock)) =
        inHour.map fun x => ⟨h, x.1, x.2⟩ := by
    dsimp only [inHour]
    rw [Option.map_bind]
    congr 1
    funext m
    exact (Option.map_map (fun x : Nat × Nat => (⟨h, x.1, x.2⟩ : Clock)) (fun s => (m, s))
      (e.seconds.next? 60 0)).symm
  rw [funext heq]
  refine (Field.next?_first e.hours 24 (c.hour + 1)).pair hin (fun d => ?_)
    fun h h' x x' hh hx => ?_
  · obtain ⟨h, m, s⟩ := d
    rw [strikes_iff]
    constructor
    · rintro ⟨⟨⟨hh, hh'⟩, hms⟩, hlt⟩
      exact ⟨h, (m, s), ⟨hlt, hh, hh'⟩, hms, rfl⟩
    · rintro ⟨h, x, ⟨hlt, hh, hh'⟩, hms, hd⟩
      cases hd
      exact ⟨⟨⟨hh, hh'⟩, hms⟩, hlt⟩
  · dsimp only [id, Clock.seconds] at hh hx ⊢
    omega

theorem clockFrom?_first (hc : c.Valid) :
    FirstOf Clock.seconds (fun d => e.Strikes d ∧ c.seconds ≤ d.seconds) (e.clockFrom? c) := by
  rw [Expression.clockFrom?]
  refine ((sameMinute_first hc).orElse ((sameHour_first hc).orElse laterHour_first ?_) ?_).congr
    fun d => ?_
  · rintro a b ⟨ha, hh, -⟩ ⟨hb, hlt⟩
    obtain ⟨ha, -⟩ := ha
    have hm := ha.minute
    have hs := ha.second
    dsimp only [Clock.seconds]
    omega
  · rintro a b ⟨ha, hh, hm, -⟩ hb
    obtain ⟨ha, -⟩ := ha
    have hs := ha.second
    dsimp only [Clock.seconds]
    rcases hb with ⟨-, hh', hlt⟩ | ⟨-, hlt⟩
    · omega
    · have hm' := hc.minute
      omega
  · have hm := hc.minute
    have hs := hc.second
    rw [← and_or_left, ← and_or_left]
    refine and_congr_right fun hd => ?_
    have hdm := hd.1.minute
    have hds := hd.1.second
    dsimp only [Clock.seconds]
    omega

/-- The first time of day at which an expression fires. -/
theorem firstClock?_first : FirstOf Clock.seconds e.Strikes e.firstClock? := by
  have hz : (⟨0, 0, 0⟩ : Clock).Valid := ⟨by decide, by decide, by decide⟩
  exact (clockFrom?_first hz).congr fun d => and_iff_left (Nat.zero_le _)

/-! ## Days -/

variable {t : Int}

theorem fires_iff : e.fires t ↔ e.matchesDay (dayOf t) ∧ e.Strikes (clockOf t) := by
  rw [Expression.fires, Bool.and_eq_true, Expression.Strikes]
  exact and_congr_right fun _ => (and_iff_right (clockOf_valid t)).symm

/-- Within a day, instants come in the order of their times of day. -/
theorem firingOn_first {day : Int} {o : Option Clock} {p : Clock → Prop} (hd : e.matchesDay day)
    (h : FirstOf Clock.seconds (fun c => e.Strikes c ∧ p c) o) :
    FirstOf id (fun t => e.fires t ∧ dayOf t = day ∧ p (clockOf t)) (o.map (instant day)) := by
  refine h.map (fun t => ⟨?_, ?_⟩) fun c c' hle => ?_
  · rintro ⟨hf, rfl, hp⟩
    exact ⟨clockOf t, ⟨(fires_iff.mp hf).2, hp⟩, instant_dayOf_clockOf t⟩
  · rintro ⟨c, ⟨hs, hp⟩, rfl⟩
    rw [fires_iff, dayOf_instant hs.1, clockOf_instant hs.1]
    exact ⟨⟨hd, hs⟩, rfl, hp⟩
  · dsimp only [id]
    rw [instant_eq, instant_eq]
    omega

theorem lt_of_dayOf_lt {t u : Int} (h : dayOf t < dayOf u) : t ≤ u := by
  rw [dayOf_eq, dayOf_eq] at h
  omega

/-- The first firing on some days. -/
theorem fromDay?_first (e : Expression) (count : Nat) (day : Int) :
    FirstOf id (fun t => e.fires t ∧ day ≤ dayOf t ∧ dayOf t < day + count)
      (e.fromDay? count day) := by
  induction count generalizing day with
  | zero =>
    rintro t ⟨-, hle, hlt⟩
    omega
  | succ count ih =>
    rw [Expression.fromDay?]
    split
    · rename_i hd
      have hfirst : FirstOf Clock.seconds (fun c => e.Strikes c ∧ True) e.firstClock? :=
        firstClock?_first.congr fun c => (and_iff_left trivial).symm
      refine (firingOn_first hd hfirst).widen (fun t ht => ?_) fun t ht => ?_
      · obtain ⟨hf, rfl, -⟩ := ht
        exact ⟨hf, by omega, by omega⟩
      · obtain ⟨hf, hle, -⟩ := ht
        have hs := (fires_iff.mp hf).2
        have hday := dayOf_instant hs.1 day
        refine ⟨instant day (clockOf t), ⟨?_, hday, trivial⟩, ?_⟩
        · rw [fires_iff, hday, clockOf_instant hs.1]
          exact ⟨hd, hs⟩
        · rw [dayOf_eq] at hle
          have hsec := secondOfDay_eq t
          dsimp only [id]
          rw [instant_eq, seconds_clockOf]
          omega
    · rename_i hd
      refine (ih (day + 1)).congr fun t => and_congr_right fun hf => ?_
      have hne : dayOf t ≠ day := fun he => hd (he ▸ (fires_iff.mp hf).1)
      omega

/-! ## All firings -/

/-- An expression fires in the years from 1970 to 2100 only. -/
def Expression.Bounded (e : Expression) : Prop := ∀ n, e.years.holds n → 1970 ≤ n ∧ n ≤ 2100

theorem Expression.Bounded.day (hb : e.Bounded) {day : Int} (hd : e.matchesDay day) :
    0 ≤ day ∧ day < endDay := by
  rw [Expression.matchesDay] at hd
  simp only [Bool.and_eq_true, decide_eq_true_eq] at hd
  obtain ⟨⟨⟨⟨hn, hy⟩, -⟩, -⟩, -⟩ := hd
  obtain ⟨hfrom, hto⟩ := hb _ hy
  refine ⟨Int.not_lt.mp fun hneg => ?_, Int.not_le.mp fun hlate => ?_⟩
  · have hlt := year_lt_of_neg hneg
    omega
  · have hlt := year_gt_of_endDay_le hlate
    omega

/-- The next firing of an expression is the first instant afterwards that the expression matches. -/
theorem next?_first (hb : e.Bounded) (after : Int) :
    FirstOf id (fun t => e.fires t ∧ after < t) (e.next? after) := by
  rw [Expression.next?]
  generalize hs : max (after + 1) 0 = start
  have hnow : FirstOf id
      (fun t => e.fires t ∧ dayOf t = dayOf start ∧ (clockOf start).seconds ≤ (clockOf t).seconds)
      (if e.matchesDay (dayOf start) then
        (e.clockFrom? (clockOf start)).map (instant (dayOf start))
      else none) := by
    refine .ite (fun hd => firingOn_first hd (clockFrom?_first (clockOf_valid start))) ?_
    rintro hn t ⟨hf, hday, -⟩
    exact hn (hday ▸ (fires_iff.mp hf).1)
  refine (hnow.orElse (fromDay?_first e _ _) ?_).congr fun t => ?_
  · rintro t u ⟨-, ht, -⟩ ⟨-, hu, -⟩
    have hlt : dayOf t < dayOf u := by omega
    exact lt_of_dayOf_lt hlt
  · rw [← and_or_left]
    refine and_congr_right fun hf => ?_
    obtain ⟨hfrom, hto⟩ := hb.day (fires_iff.mp hf).1
    have hsec := secondOfDay_eq t
    have hsec' := secondOfDay_eq start
    rw [seconds_clockOf, seconds_clockOf]
    rw [dayOf_eq] at hfrom hto
    rw [dayOf_eq, dayOf_eq]
    omega

end Cron

end TrieFeed.Time
