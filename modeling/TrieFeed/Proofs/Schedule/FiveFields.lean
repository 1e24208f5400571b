import TrieFeed.Proofs.Time.Matches
import TrieFeed.Schedule.Cadence
/-!
# Plans with expressions of five fields

A plan may give its expression in the usual five fields. What such a plan fires at is compared with
what the fields are usually taken to match.
-/
namespace TrieFeed.Schedule

open Time (FirstOf)
open Time.Cron (Standard InYears Entry Digits next?_first of_firstOf)

variable {x : Standard} {plan : Plan}

theorem spelled?_text (x : Standard) : spelled? (some x.text) = some x.text := by
  obtain ⟨c, hc, hb⟩ := x.bordered.head
  have hall : Text.allBlank x.text = false := by
    obtain ⟨rest, hcs⟩ := List.head?_eq_some_iff.mp hc
    rw [Text.allBlank, Standard.text, String.toList_ofList, hcs, List.all_cons,
      Time.Cron.isBlank_of_isBorder hb, Bool.false_and]
  rw [spelled?, Option.filter_some, hall]
  rfl

theorem ofPlan_text (hp : plan.cron = some x.text) : Cadence.ofPlan plan =
    match Time.Cron.longhand? x.longhand with
    | some e => .ok (.cron e)
    | none => .error (.badCron x.text) := by
  rw [Cadence.ofPlan, hp, spelled?_text]
  dsimp only
  have hr := x.read?_text
  generalize Time.Cron.read? x.text = o at hr ⊢
  subst hr
  cases Time.Cron.longhand? x.longhand with
  | none => rfl
  | some e => rfl

theorem ofPlan_readable (hv : x.Valid) (hp : plan.cron = some x.text) (hr : x.Readable) :
    Cadence.ofPlan plan = .ok (.cron x.expression) := by
  rw [ofPlan_text hp, Time.Cron.longhand?_read (hv.reads_iff.mpr hr)]

theorem ofPlan_not_readable (hv : x.Valid) (hp : plan.cron = some x.text) (hr : ¬ x.Readable) :
    Cadence.ofPlan plan = .error (.badCron x.text) := by
  have hn : ¬ x.Reads := fun h => hr (hv.reads_iff.mp h)
  rw [ofPlan_text hp, Time.Cron.longhand?_none hv hn]

/-- The next firing is the first instant that the fields hold, with Sunday as day one of the week. -/
theorem expression_first (x : Standard) (t : Int) :
    FirstOf id (fun u => x.Fires u ∧ t < u) (x.expression.next? t) :=
  (next?_first x.expression_bounded t).congr fun _ => and_congr_left fun _ => Standard.fires_iff

/-- A plan with an expression of five fields has a cadence unless a day of the week is written as
zero or a step does not fit in thirty-two bits. Both of its instants are then the first afterwards,
until the year 2100, that the fields hold with Sunday as day one. They are those that the fields are
usually taken to match just if the days of the week agree, as those of stars do. -/
theorem five_fields_cadence (hv : x.Valid) (hp : plan.cron = some x.text) :
    (x.Readable → ∃ c, Cadence.ofPlan plan = .ok c) ∧
    (¬ x.Readable → Cadence.ofPlan plan = .error (.badCron x.text)) ∧
    ∀ c, Cadence.ofPlan plan = .ok c →
      (∀ t, c.first? t = c.next? t ∧ FirstOf id (fun u => x.Fires u ∧ t < u) (c.next? t)) ∧
      ((∀ t, FirstOf id (fun u => (x.Matches u ∧ InYears u) ∧ t < u) (c.next? t)) ↔
        x.dayOfWeek.Agrees) ∧
      ((∀ m ∈ x.dayOfWeek.members, ∃ step, m = .every step) → x.dayOfWeek.Agrees) := by
  refine ⟨fun hr => ⟨_, ofPlan_readable hv hp hr⟩, ofPlan_not_readable hv hp, fun c hc => ?_⟩
  have hr : x.Readable := by
    by_contra hr
    rw [ofPlan_not_readable hv hp hr] at hc
    cases hc
  rw [ofPlan_readable hv hp hr] at hc
  obtain rfl : Cadence.cron x.expression = c := Except.ok.inj hc
  refine ⟨fun t => ⟨rfl, expression_first x t⟩, ?_, Entry.agrees_of_every⟩
  rw [← hv.fires_iff_matches]
  constructor
  · exact fun h t => ⟨of_firstOf (expression_first x) h, of_firstOf h (expression_first x)⟩
  · exact fun h t => (expression_first x t).congr fun u => and_congr_left fun _ => h u

/-- Half past nine on days one to five of the week, with single spaces. -/
def workdays : Standard :=
  let thirty : Digits := ⟨['3', '0'], List.cons_ne_nil _ _,
    List.forall_mem_cons.mpr ⟨rfl, List.forall_mem_singleton.mpr rfl⟩⟩
  { minute := ⟨.point thirty, []⟩
    afterMinute := .single
    hour := ⟨.point (.single '9' rfl), []⟩
    afterHour := .single
    dayOfMonth := .star
    afterDay := .single
    month := .star
    afterMonth := .single
    dayOfWeek := ⟨.range (.single '1' rfl) (.single '5' rfl) none, []⟩ }

theorem workdays_valid : workdays.Valid where
  minute := List.forall_mem_singleton.mpr ⟨by decide, by decide, by decide⟩
  hour := List.forall_mem_singleton.mpr ⟨by decide, by decide, by decide⟩
  dayOfMonth := List.forall_mem_singleton.mpr ⟨by decide, trivial⟩
  month := List.forall_mem_singleton.mpr ⟨by decide, trivial⟩
  dayOfWeek := List.forall_mem_singleton.mpr ⟨by decide, by decide, by decide, by decide⟩
  day := .inl rfl

theorem workdays_readable : workdays.Readable where
  steps := by decide
  weekdays := by decide

theorem workdays_not_agrees : ¬ workdays.dayOfWeek.Agrees := by
  intro h
  have hfits := fun m hm => (workdays_valid.reads_iff.mpr workdays_readable).dayOfWeek m hm |>.1
  have hseven := (Entry.agrees_iff_of_numbers hfits (by decide)).mp h 7 (by decide) (by decide)
  obtain ⟨m, hm, hh⟩ := hseven
  obtain rfl := List.mem_singleton.mp hm
  exact absurd hh.2.1 (by decide)

/-- On a Friday at ten, such a plan fires next on Sunday. -/
theorem five_fields_cadence_workdays : workdays.text = "30 9 * * 1-5" ∧
    ∃ c, Cadence.ofPlan { Plan.blank with cron := some "30 9 * * 1-5" } = .ok c ∧
      c.next? 1704448800 = some 1704619800 ∧ Time.weekday (Time.dayOf 1704619800) = 1 ∧
      ¬ ∀ t, FirstOf id (fun u => (workdays.Matches u ∧ InYears u) ∧ t < u) (c.next? t) := by
  have htext : workdays.text = "30 9 * * 1-5" := by decide
  let plan : Plan := { Plan.blank with cron := some "30 9 * * 1-5" }
  have hp : plan.cron = some workdays.text := congrArg some htext.symm
  obtain ⟨hok, -, hfirst⟩ := five_fields_cadence workdays_valid hp
  obtain ⟨c, hc⟩ := hok workdays_readable
  refine ⟨htext, c, hc, ?_, by decide, fun hall => ?_⟩
  · rw [ofPlan_readable workdays_valid hp workdays_readable] at hc
    obtain rfl := Except.ok.inj hc
    have hnext : workdays.expression.next? 1704448800 = some 1704619800 := by decide +kernel
    exact hnext
  · exact workdays_not_agrees ((hfirst c hc).2.1.mp hall)

end TrieFeed.Schedule
