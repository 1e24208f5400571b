import Mathlib.Data.List.Induction
import Mathlib.Data.List.Perm.Basic
import TrieFeed.Proofs.Fields
import TrieFeed.Schedule.Scheduler
/-!
# Runs of the scheduler

A run is a sequence of operations, ticks and completions in any order, from the empty scheduler on.
What each of them does to the job of a name, and to the firings under that name, is stated once.
-/
namespace TrieFeed.Schedule

open Ingest (Report)

inductive Event where
  | schedule (provider : String) (plan : Plan) (now : Int)
  | cancel (provider : String)
  | enable (provider : String) (now : Int)
  | disable (provider : String)
  /-- A run outside of the schedule ends. -/
  | record (provider : String) (instant : Int) (result : Except PluginError Report)
  | tick (now : Int)
  | complete (position : Nat) (result : Except PluginError Report)

/-- The event puts a new job in place for a provider. -/
def Event.Schedules (provider : String) : Event → Prop
  | .schedule name plan _ => name = provider ∧ ∃ cadence, Cadence.ofPlan plan = .ok cadence
  | _ => False

/-- The event starts or ends firings. -/
def Event.Fires : Event → Prop
  | .tick _ | .complete .. => True
  | _ => False

namespace Scheduler

variable {s : Scheduler} {provider other : String} {e : Event}

def after (s : Scheduler) : Event → Scheduler
  | .schedule provider plan now => (s.schedule provider plan now).2
  | .cancel provider => (s.cancel provider).2
  | .enable provider now => (s.enable provider now).2
  | .disable provider => (s.disable provider).2
  | .record provider instant result => s.record provider instant result
  | .tick now => s.tick now
  | .complete position result => s.complete position result

def run (events : List Event) : Scheduler := events.foldl after empty

theorem run_snoc (events : List Event) (e : Event) : run (events ++ [e]) = (run events).after e :=
  List.foldl_concat ..

def jobOf (s : Scheduler) (provider : String) : Option Job := Fields.get? provider s.jobs

/-- How many firings of a provider have not completed. -/
def firingCount (s : Scheduler) (provider : String) : Nat :=
  s.firings.countP fun firing => firing.provider = provider

/-! ## Changes of one job -/

theorem jobOf_change_self (f : Job → Job) : (s.change provider f).jobOf provider =
    (s.jobOf provider).map f := by
  rw [change]
  cases hj : Fields.get? provider s.jobs with
  | none => rw [jobOf, hj]; rfl
  | some job =>
    rw [jobOf, jobOf, hj]
    exact Fields.get?_insert_self ..

theorem jobOf_change_of_ne (h : provider ≠ other) (f : Job → Job) :
    (s.change provider f).jobOf other = s.jobOf other := by
  rw [change]
  split
  · exact Fields.get?_insert_of_ne h ..
  · rfl

theorem jobOf_change (f : Job → Job) : (s.change provider f).jobOf other =
    (s.jobOf other).map fun job => if provider = other then f job else job := by
  by_cases h : provider = other
  · subst h
    simp only [jobOf_change_self, if_true]
  · simp only [jobOf_change_of_ne h, if_neg h, Option.map_id']

theorem firings_change (f : Job → Job) : (s.change provider f).firings = s.firings := by
  rw [change]
  split <;> rfl

theorem firingCount_change (f : Job → Job) :
    (s.change provider f).firingCount other = s.firingCount other := by
  rw [firingCount, firings_change, firingCount]

theorem distinct_change (h : Fields.Distinct s.jobs) (f : Job → Job) :
    Fields.Distinct (s.change provider f).jobs := by
  rw [change]
  split
  · exact h.insert ..
  · exact h

/-- What requires a job changes nothing where there is none. -/
theorem require_eq_change (f : Job → Job) : (s.require provider f).2 = s.change provider f := by
  rw [require, Fields.has, change]
  cases hj : Fields.get? provider s.jobs with
  | none => rfl
  | some job => rfl

theorem enable_eq (provider : String) (now : Int) (s : Scheduler) : (s.enable provider now).2 =
    s.change provider fun job => { job with enabled := true, nextRun := job.cadence.first? now } :=
  require_eq_change _

theorem disable_eq (provider : String) (s : Scheduler) :
    (s.disable provider).2 = s.change provider fun job => { job with enabled := false } :=
  require_eq_change _

/-! ## Schedules -/

theorem schedule_ok {plan : Plan} {cadence : Cadence} (h : Cadence.ofPlan plan = .ok cadence)
    (provider : String) (now : Int) (s : Scheduler) : (s.schedule provider plan now).2 =
      { s with jobs := Fields.insert provider (Job.create plan cadence now) s.jobs } := by
  rw [schedule, h]

theorem schedule_error {plan : Plan} {fault : Fault} (h : Cadence.ofPlan plan = .error fault)
    (provider : String) (now : Int) (s : Scheduler) : (s.schedule provider plan now).2 = s := by
  rw [schedule, h]

/-! ## Firings -/

theorem jobOf_tick (provider : String) (now : Int) (s : Scheduler) : (s.tick now).jobOf provider =
    (s.jobOf provider).map fun job => if job.isDue now then job.fire now else job := by
  rw [jobOf, tick]
  exact Fields.get?_map (fun job : Job => if job.isDue now then job.fire now else job) ..

/-- A tick starts one firing of a provider whose job is due, and none of another. -/
theorem firingCount_tick (h : Fields.Distinct s.jobs) (provider : String) (now : Int) :
    (s.tick now).firingCount provider = s.firingCount provider +
      if (s.jobOf provider).any (·.isDue now) then 1 else 0 := by
  rw [firingCount, tick, List.countP_append, List.countP_map, List.countP_filter, firingCount,
    jobOf, ← h.countP provider (·.isDue now), (Fields.sorted_perm s.jobs).countP_eq]
  rfl

/-- A completion ends one firing of its provider, and notes the result on the job of that name. -/
theorem complete_eq {position : Nat} {firing : Firing} (h : s.firings[position]? = some firing)
    (result : Except PluginError Report) : s.complete position result =
      { s with firings := s.firings.eraseIdx position }.change firing.provider fun job =>
        { job with inFlight := false }.record firing.instant result := by
  rw [complete, h]

theorem firings_complete (s : Scheduler) (position : Nat) (result : Except PluginError Report) :
    (s.complete position result).firings = s.firings.eraseIdx position := by
  cases hf : s.firings[position]? with
  | none =>
    rw [complete, hf, List.eraseIdx_of_length_le (List.getElem?_eq_none_iff.mp hf)]
  | some firing => rw [complete_eq hf, firings_change]

theorem firingCount_complete {position : Nat} {firing : Firing}
    (h : s.firings[position]? = some firing) (provider : String)
    (result : Except PluginError Report) :
    (s.complete position result).firingCount provider +
      (if firing.provider = provider then 1 else 0) = s.firingCount provider := by
  obtain ⟨hlt, rfl⟩ := List.getElem?_eq_some_iff.mp h
  have hp := (List.getElem_cons_eraseIdx_perm hlt).countP_eq fun f => decide (f.provider = provider)
  rw [List.countP_cons] at hp
  rw [complete_eq h, firingCount_change, firingCount, firingCount, ← hp]
  simp

theorem jobOf_complete_of_ne {position : Nat} {firing : Firing}
    (h : s.firings[position]? = some firing) (hne : firing.provider ≠ provider)
    (result : Except PluginError Report) :
    (s.complete position result).jobOf provider = s.jobOf provider := by
  rw [complete_eq h, jobOf_change_of_ne hne]
  rfl

/-! ## Every step -/

/-- What an event makes of the job of a provider, if the job stays. -/
def updated (s : Scheduler) (provider : String) : Event → Job → Job
  | .enable name now, job =>
    if name = provider then { job with enabled := true, nextRun := job.cadence.first? now } else job
  | .disable name, job => if name = provider then { job with enabled := false } else job
  | .record name instant result, job =>
    if name = provider then job.record instant result else job
  | .tick now, job => if job.isDue now then job.fire now else job
  | .complete position result, job =>
    match s.firings[position]?.filter (·.provider = provider) with
    | some firing => { job with inFlight := false }.record firing.instant result
    | none => job
  | .schedule .., job | .cancel _, job => job

theorem jobOf_after (hs : ¬ e.Schedules provider) (hc : e ≠ .cancel provider) :
    (s.after e).jobOf provider = (s.jobOf provider).map (s.updated provider e) := by
  cases e with
  | schedule name plan now =>
    have hid : s.updated provider (.schedule name plan now) = id := rfl
    rw [hid, Option.map_id_fun, id, after]
    cases hp : Cadence.ofPlan plan with
    | error fault => rw [schedule_error hp]
    | ok cadence =>
      rw [schedule_ok hp]
      exact Fields.get?_insert_of_ne (fun hn => hs ⟨hn, cadence, hp⟩) ..
  | cancel name =>
    have hid : s.updated provider (.cancel name) = id := rfl
    rw [hid, Option.map_id_fun, id]
    exact Fields.get?_erase_of_ne (fun hn => hc (by rw [hn])) ..
  | enable name now =>
    rw [after, enable_eq, jobOf_change]
    rfl
  | disable name =>
    rw [after, disable_eq, jobOf_change]
    rfl
  | record name instant result => exact jobOf_change _
  | tick now => exact jobOf_tick ..
  | complete position result =>
    rw [after]
    cases hf : s.firings[position]? with
    | none =>
      have hid : s.updated provider (.complete position result) = id := by
        funext job
        rw [updated, hf]
        rfl
      rw [complete, hf, hid, Option.map_id_fun, id]
    | some firing =>
      rw [complete_eq hf, jobOf_change]
      congr 1
      funext job
      by_cases hp : firing.provider = provider
      · rw [if_pos hp, updated, hf, Option.filter_some, if_pos (decide_eq_true hp)]
      · rw [if_neg hp, updated, hf, Option.filter_some, if_neg (by simpa using hp)]

/-- A job that an event does not put in place was there before. -/
theorem exists_updated (hs : ¬ e.Schedules provider) {job : Job}
    (hj : (s.after e).jobOf provider = some job) :
    ∃ old, s.jobOf provider = some old ∧ job = s.updated provider e old := by
  by_cases hc : e = .cancel provider
  · rw [hc, jobOf, after, cancel, Fields.get?_erase_self] at hj
    cases hj
  · rw [jobOf_after hs hc] at hj
    obtain ⟨old, ho, rfl⟩ := Option.map_eq_some_iff.mp hj
    exact ⟨old, ho, rfl⟩

theorem firings_kept (h : ¬ e.Fires) : (s.after e).firings = s.firings := by
  cases e with
  | schedule name plan now =>
    rw [after]
    cases hc : Cadence.ofPlan plan with
    | error fault => rw [schedule_error hc]
    | ok cadence => rw [schedule_ok hc]
  | cancel name => rfl
  | enable name now => rw [after, enable_eq, firings_change]
  | disable name => rw [after, disable_eq, firings_change]
  | record name instant result => exact firings_change _
  | tick | complete => exact absurd trivial h

theorem firingCount_kept (h : ¬ e.Fires) :
    (s.after e).firingCount provider = s.firingCount provider := by
  rw [firingCount, firings_kept h, firingCount]

theorem distinct_after (h : Fields.Distinct s.jobs) (e : Event) :
    Fields.Distinct (s.after e).jobs := by
  cases e with
  | schedule provider plan now =>
    rw [after]
    cases hc : Cadence.ofPlan plan with
    | error fault => rw [schedule_error hc]; exact h
    | ok cadence => rw [schedule_ok hc]; exact h.insert ..
  | cancel provider => exact h.erase provider
  | enable provider now =>
    rw [after, enable_eq]
    exact distinct_change h _
  | disable provider =>
    rw [after, disable_eq]
    exact distinct_change h _
  | record provider instant result => exact distinct_change h _
  | tick now => exact h.map fun job : Job => if job.isDue now then job.fire now else job
  | complete position result =>
    rw [after]
    cases hf : s.firings[position]? with
    | none => rw [complete, hf]; exact h
    | some firing =>
      rw [complete_eq hf]
      apply distinct_change
      exact h

theorem run_distinct (events : List Event) : Fields.Distinct (run events).jobs := by
  induction events using List.reverseRecOn with
  | nil => exact List.nodup_nil
  | append_singleton events e ih =>
    rw [run_snoc]
    exact distinct_after ih e

end Scheduler

end TrieFeed.Schedule
