import TrieFeed.Proofs.Schedule.Runs
/-!
# Firings of one provider

Whether a provider is being run is noted on its job, and a job that replaces another starts without
the note. So firings of a provider stay apart exactly while no schedule of it takes effect during a
firing: one that does lets the next tick start a second firing beside the first.
-/
namespace TrieFeed.Schedule

open Ingest (Report)

namespace Scheduler

variable {s t : Scheduler} {provider : String}

/-- At most one firing of a provider runs, and if it has a job, then the job says whether one
does. -/
structure Apart (s : Scheduler) (provider : String) : Prop where
  alone : s.firingCount provider ≤ 1
  noted : ∀ job, s.jobOf provider = some job → s.firingCount provider = job.inFlight.toNat

/-- Each job of a provider was there before, and was in flight when it is. -/
def Kept (s t : Scheduler) (provider : String) : Prop :=
  ∀ job, t.jobOf provider = some job → ∃ old, s.jobOf provider = some old ∧
    job.inFlight = old.inFlight

theorem Kept.of_eq (h : t.jobOf provider = s.jobOf provider) : Kept s t provider :=
  fun job hj => ⟨job, h ▸ hj, rfl⟩

theorem record_inFlight (instant : Int) (result : Except PluginError Report) (job : Job) :
    (job.record instant result).inFlight = job.inFlight := by
  cases result <;> rfl

theorem updated_inFlight {e : Event} (h : ¬ e.Fires) (job : Job) :
    (s.updated provider e job).inFlight = job.inFlight := by
  cases e with
  | schedule | cancel => rfl
  | enable | disable =>
    rw [updated]
    split <;> rfl
  | record name instant result =>
    rw [updated]
    split
    · exact record_inFlight instant result job
    · rfl
  | tick | complete => exact absurd trivial h

theorem kept_after {e : Event} (hs : ¬ e.Schedules provider) (hf : ¬ e.Fires) :
    Kept s (s.after e) provider := by
  intro job hj
  obtain ⟨old, ho, rfl⟩ := exists_updated hs hj
  exact ⟨old, ho, updated_inFlight hf old⟩

theorem Apart.of_kept (h : Apart s provider) (hc : t.firingCount provider = s.firingCount provider)
    (hk : Kept s t provider) : Apart t provider := by
  constructor
  · rw [hc]
    exact h.alone
  · intro job hj
    obtain ⟨old, ho, hf⟩ := hk job hj
    rw [hc, hf]
    exact h.noted old ho

theorem apart_schedule (h : Apart s provider) (name : String) (plan : Plan) (now : Int)
    (hq : Event.Schedules provider (.schedule name plan now) → s.firingCount provider = 0) :
    Apart (s.schedule name plan now).2 provider := by
  cases hc : Cadence.ofPlan plan with
  | error fault =>
    rw [schedule_error hc]
    exact h
  | ok cadence =>
    rw [schedule_ok hc]
    by_cases hn : name = provider
    · have hz := hq ⟨hn, cadence, hc⟩
      subst hn
      constructor
      · exact h.alone
      · intro job hj
        rw [jobOf, Fields.get?_insert_self] at hj
        cases hj
        exact hz
    · exact h.of_kept rfl (.of_eq (Fields.get?_insert_of_ne hn ..))

/-- A job that is due is not in flight, so that its firing is the only one. -/
theorem apart_tick (h : Apart s provider) (hd : Fields.Distinct s.jobs) (now : Int) :
    Apart (s.tick now) provider := by
  have hc := firingCount_tick hd provider now
  have hj := jobOf_tick provider now s
  cases ho : s.jobOf provider with
  | none =>
    rw [ho] at hc hj
    constructor
    · rw [hc]
      exact h.alone
    · intro job hs
      rw [hj] at hs
      cases hs
  | some old =>
    have hn := h.noted old ho
    rw [ho, Option.any_some] at hc
    rw [ho, Option.map_some] at hj
    by_cases hdue : old.isDue now
    · have hf : old.inFlight = false := by
        rw [Job.isDue, Bool.and_eq_true, Bool.and_eq_true, Bool.not_eq_true'] at hdue
        exact hdue.1.2
      rw [if_pos hdue, hn, hf] at hc
      constructor
      · exact Nat.le_of_eq hc
      · intro job hs
        rw [hj, if_pos hdue] at hs
        cases hs
        exact hc
    · rw [if_neg hdue] at hc
      refine h.of_kept hc fun job hs => ?_
      rw [hj, if_neg hdue] at hs
      cases hs
      exact ⟨old, ho, rfl⟩

theorem apart_complete (h : Apart s provider) (position : Nat)
    (result : Except PluginError Report) : Apart (s.complete position result) provider := by
  cases hf : s.firings[position]? with
  | none =>
    rw [complete, hf]
    exact h
  | some firing =>
    have hc := firingCount_complete hf provider result
    by_cases hp : firing.provider = provider
    · rw [if_pos hp] at hc
      have ha := h.alone
      constructor
      · omega
      · intro job hj
        rw [complete_eq hf, hp, jobOf_change_self] at hj
        obtain ⟨old, -, rfl⟩ := Option.map_eq_some_iff.mp hj
        rw [record_inFlight]
        exact Nat.le_zero.mp (by omega)
    · rw [if_neg hp] at hc
      exact h.of_kept hc (.of_eq (jobOf_complete_of_ne hf hp result))

theorem step_preserves_apart (h : Apart s provider) (hd : Fields.Distinct s.jobs) (e : Event)
    (hq : e.Schedules provider → s.firingCount provider = 0) : Apart (s.after e) provider := by
  cases e with
  | schedule name plan now => exact apart_schedule h name plan now hq
  | tick now => exact apart_tick h hd now
  | complete position result => exact apart_complete h position result
  | cancel | enable | disable | record =>
    exact h.of_kept (firingCount_kept id) (kept_after id id)

/-- No schedule of a provider takes effect while a firing of it runs. -/
def Undisturbed (provider : String) (events : List Event) : Prop :=
  ∀ before e, before ++ [e] <+: events → e.Schedules provider →
    (run before).firingCount provider = 0

theorem Undisturbed.of_prefix {events before : List Event} (h : Undisturbed provider events)
    (hp : before <+: events) : Undisturbed provider before :=
  fun earlier e he => h earlier e (he.trans hp)

theorem run_apart {events : List Event} (h : Undisturbed provider events) :
    Apart (run events) provider := by
  induction events using List.reverseRecOn with
  | nil => exact ⟨Nat.zero_le 1, fun job hj => by cases hj⟩
  | append_singleton events e ih =>
    have ha := ih (h.of_prefix (List.prefix_append events [e]))
    rw [run_snoc]
    exact step_preserves_apart ha (run_distinct events) e (h events e List.prefix_rfl)

/-- A plan that fires each hour, from the moment it is scheduled. -/
def hourly : Plan := { Plan.blank with interval := some "1h" }

end Scheduler

end TrieFeed.Schedule
