import Mathlib.Algebra.Order.BigOperators.Group.List
import Mathlib.Tactic.Ring
import TrieFeed.Proofs.Schedule.Overlap
/-!
# The rate of interval jobs

An interval job is next due one period after the tick that starts its firing, and not one period
after the instant for which that firing was due. So the delay of each tick stays in the schedule,
and the delays add up.
-/
namespace TrieFeed.Schedule

open Ingest (Report)

/-- The event sets anew when the job of a provider is due. -/
def Event.Restarts (provider : String) (e : Event) : Prop :=
  e.Schedules provider ∨ ∃ now, e = .enable provider now

namespace Scheduler

variable {s : Scheduler} {provider : String} {period : Nat} {due : Int}

/-- The event lets a job of a provider fire each period, from an instant on. -/
def Starts (s : Scheduler) (provider : String) (period : Nat) (start : Int) : Event → Prop
  | .schedule name plan now =>
    name = provider ∧ now = start ∧ Cadence.ofPlan plan = .ok (.every period)
  | .enable name now =>
    name = provider ∧ now = start ∧ ∀ job, s.jobOf provider = some job → job.cadence = .every period
  | _ => False

/-- By how much a tick comes after the instant for which it starts a firing of a provider. -/
def delay? (s : Scheduler) (provider : String) : Event → Option Int
  | .tick now => ((s.jobOf provider).filter (·.isDue now)).bind fun job => job.nextRun.map (now - ·)
  | _ => none

def delays (provider : String) : Scheduler → List Event → List Int
  | _, [] => []
  | s, e :: later => (s.delay? provider e).toList ++ delays provider (s.after e) later

/-- When a job is next due after an event, by the delay with which the event starts a firing of it
if it does. -/
def putOff (period : Nat) (due : Int) : Option Int → Int
  | some late => due + period + late
  | none => due

/-- A job of a provider fires each period, and is next due at an instant unless it is never due
again. -/
def DueAt (s : Scheduler) (provider : String) (period : Nat) (due : Int) : Prop :=
  ∀ job, s.jobOf provider = some job → job.cadence = .every period ∧
    ∀ next, job.nextRun = some next → next = due

/-! ## One step -/

theorem record_timing (instant : Int) (result : Except PluginError Report) (job : Job) :
    (job.record instant result).cadence = job.cadence ∧
      (job.record instant result).nextRun = job.nextRun := by
  cases result <;> exact ⟨rfl, rfl⟩

theorem exists_due {job : Job} {now : Int} (h : job.isDue now) :
    ∃ was, job.nextRun = some was ∧ was ≤ now := by
  rw [Job.isDue, Bool.and_eq_true] at h
  cases hn : job.nextRun with
  | none =>
    rw [hn] at h
    cases h.2
  | some was =>
    rw [hn] at h
    exact ⟨was, rfl, of_decide_eq_true h.2⟩

theorem next_of_fire {job : Job} {now next : Int} (hc : job.cadence = .every period)
    (h : (job.fire now).nextRun = some next) : next = now + period := by
  have hn : job.cadence.next? now = some next := h
  rw [hc, Cadence.next?] at hn
  split at hn
  · exact (Option.some.inj hn).symm
  · cases hn

theorem updated_timing {e : Event} (hr : ¬ e.Restarts provider) (ht : ∀ now, e ≠ .tick now)
    (job : Job) : (s.updated provider e job).cadence = job.cadence ∧
      (s.updated provider e job).nextRun = job.nextRun := by
  cases e with
  | schedule | cancel => exact ⟨rfl, rfl⟩
  | enable name now =>
    have hn : name ≠ provider := fun hn => hr (.inr ⟨now, by rw [hn]⟩)
    rw [updated, if_neg hn]
    exact ⟨rfl, rfl⟩
  | disable name =>
    rw [updated]
    split <;> exact ⟨rfl, rfl⟩
  | record name instant result =>
    rw [updated]
    split
    · exact record_timing instant result job
    · exact ⟨rfl, rfl⟩
  | tick now => exact absurd rfl (ht now)
  | complete position result =>
    rw [updated]
    split
    · exact record_timing _ result { job with inFlight := false }
    · exact ⟨rfl, rfl⟩

/-- The tick that starts a firing sets the next one by itself and not by when the firing was due. -/
theorem dueAt_tick (h : DueAt s provider period due) (now : Int) :
    DueAt (s.tick now) provider period (putOff period due (s.delay? provider (.tick now))) := by
  intro job hj
  rw [jobOf_tick] at hj
  obtain ⟨old, ho, rfl⟩ := Option.map_eq_some_iff.mp hj
  obtain ⟨hc, hn⟩ := h old ho
  by_cases hd : old.isDue now
  · obtain ⟨was, hw, -⟩ := exists_due hd
    have hlate : s.delay? provider (.tick now) = some (now - was) := by
      rw [delay?, ho, Option.filter_some, if_pos hd, Option.bind_some, hw, Option.map_some]
    rw [if_pos hd, hlate, putOff]
    refine ⟨hc, fun next hnext => ?_⟩
    -- The instant for which the firing was due is the one that the delay is measured from.
    have hwas : was = due := hn was hw
    have hnow : next = now + period := next_of_fire hc hnext
    omega
  · have hlate : s.delay? provider (.tick now) = none := by
      rw [delay?, ho, Option.filter_some, if_neg hd, Option.bind_none]
    rw [if_neg hd, hlate]
    exact ⟨hc, hn⟩

theorem dueAt_after (h : DueAt s provider period due) {e : Event} (hr : ¬ e.Restarts provider) :
    DueAt (s.after e) provider period (putOff period due (s.delay? provider e)) := by
  by_cases ht : ∃ now, e = .tick now
  · obtain ⟨now, rfl⟩ := ht
    exact dueAt_tick h now
  · have hlate : s.delay? provider e = none := by
      cases e with
      | tick now => exact absurd ⟨now, rfl⟩ ht
      | schedule | cancel | enable | disable | record | complete => rfl
    rw [hlate, putOff]
    intro job hj
    obtain ⟨old, ho, rfl⟩ := exists_updated (fun hs => hr (.inl hs)) hj
    obtain ⟨hcadence, hnext⟩ := updated_timing (s := s) hr (fun now he => ht ⟨now, he⟩) old
    rw [hcadence, hnext]
    exact h old ho

/-! ## Runs -/

theorem dueAt_start {start : Int} {e : Event} (h : s.Starts provider period start e) :
    DueAt (s.after e) provider period start := by
  cases e with
  | schedule name plan now =>
    obtain ⟨rfl, rfl, hc⟩ := h
    intro job hj
    rw [after, schedule_ok hc, jobOf, Fields.get?_insert_self] at hj
    cases hj
    exact ⟨rfl, fun next hnext => (Option.some.inj hnext).symm⟩
  | enable name now =>
    obtain ⟨rfl, rfl, hc⟩ := h
    intro job hj
    rw [after, enable_eq, jobOf_change_self] at hj
    obtain ⟨old, ho, rfl⟩ := Option.map_eq_some_iff.mp hj
    refine ⟨hc old ho, fun next hnext => ?_⟩
    dsimp only at hnext
    rw [hc old ho] at hnext
    exact (Option.some.inj hnext).symm
  | cancel | disable | record | tick | complete => exact h.elim

theorem dueAt_foldl {later : List Event} (h : DueAt s provider period due)
    (hr : ∀ e ∈ later, ¬ e.Restarts provider) :
    DueAt (later.foldl after s) provider period
      (due + (delays provider s later).length * period + (delays provider s later).sum) := by
  induction later generalizing s due with
  | nil =>
    rw [delays, List.length_nil, List.sum_nil, Nat.cast_zero, Int.zero_mul, Int.add_zero,
      Int.add_zero]
    exact h
  | cons e later ih =>
    have hstep := ih (dueAt_after h (hr e List.mem_cons_self))
      fun x hx => hr x (List.mem_cons_of_mem e hx)
    rw [List.foldl_cons, delays]
    cases hd : s.delay? provider e with
    | none =>
      rw [hd] at hstep
      exact hstep
    | some late =>
      rw [hd] at hstep
      have hsum : due + period + late + (delays provider (s.after e) later).length * period +
          (delays provider (s.after e) later).sum =
          due + ((delays provider (s.after e) later).length + 1 : Nat) * period +
            (late + (delays provider (s.after e) later).sum) := by
        push_cast
        ring
      rw [Option.toList_some, List.singleton_append, List.length_cons, List.sum_cons, ← hsum]
      exact hstep

theorem delay_nonneg {e : Event} {late : Int} (h : s.delay? provider e = some late) : 0 ≤ late := by
  cases e with
  | tick now =>
    obtain ⟨job, hj, hlate⟩ := Option.bind_eq_some_iff.mp h
    obtain ⟨was, hw, hle⟩ := exists_due (Option.filter_eq_some_iff.mp hj).2
    rw [hw] at hlate
    cases hlate
    exact Int.sub_nonneg_of_le hle
  | schedule | cancel | enable | disable | record | complete => cases h

theorem delays_nonneg (provider : String) (later : List Event) (s : Scheduler) :
    ∀ late ∈ delays provider s later, 0 ≤ late := by
  induction later generalizing s with
  | nil => exact fun late hl => nomatch hl
  | cons e later ih =>
    intro late hl
    rw [delays, List.mem_append] at hl
    rcases hl with hl | hl
    · exact delay_nonneg (Option.mem_toList.mp hl)
    · exact ih _ late hl

/-- What is a sum of periods but for delays is a sum of periods exactly if the delays are one. -/
theorem onRate_iff {start total : Int} (n : Nat) (h : 0 ≤ total) :
    (∃ k : Nat, start + n * period + total = start + k * period) ↔ (period : Int) ∣ total := by
  constructor
  · rintro ⟨k, hk⟩
    refine ⟨k - n, ?_⟩
    have hm : (period : Int) * (k - n) = k * period - n * period := by ring
    omega
  · intro hd
    have hq : 0 ≤ total / period := Int.ediv_nonneg h (Int.natCast_nonneg period)
    have ht : total / period * period = total := Int.ediv_mul_cancel hd
    refine ⟨n + (total / period).toNat, ?_⟩
    rw [Nat.cast_add, Int.toNat_of_nonneg hq, Int.add_mul, ht, Int.add_assoc]

/-- From the schedule or the enabling of an interval job on, the job is next due at its start, a
period for each of its firings, and the delays of the ticks that have started them: a sum of periods
from its start exactly if the delays make one together. The first tick after a schedule, if it comes
late by less than a period, already puts the job off the rate. -/
theorem next_run_drifts (provider : String) (period : Nat) (start : Int) :
    (∀ before e later, (run before).Starts provider period start e →
      (∀ x ∈ later, ¬ Event.Restarts provider x) →
      (∀ late ∈ delays provider ((run before).after e) later, 0 ≤ late) ∧
      ∀ job next, (run (before ++ e :: later)).jobOf provider = some job →
        job.nextRun = some next →
        next = start + (delays provider ((run before).after e) later).length * period +
          (delays provider ((run before).after e) later).sum ∧
        ((∃ k : Nat, next = start + k * period) ↔
          (period : Int) ∣ (delays provider ((run before).after e) later).sum)) ∧
    ∀ before plan (late : Int), Cadence.ofPlan plan = .ok (.every period) → 0 < late → late < period →
      start + late + period ≤ lastInstant →
      ∃ job, (run (before ++ [.schedule provider plan start, .tick (start + late)])).jobOf
          provider = some job ∧
        job.nextRun = some (start + late + period) ∧
        ∀ k : Nat, start + late + period ≠ start + k * period := by
  constructor
  · intro before e later hs hr
    have hnonneg := delays_nonneg provider later ((run before).after e)
    refine ⟨hnonneg, fun job next hj hnext => ?_⟩
    have hrun : run (before ++ e :: later) = later.foldl after ((run before).after e) := by
      rw [run, List.foldl_append, List.foldl_cons, run]
    rw [hrun] at hj
    have hn := (dueAt_foldl (dueAt_start hs) hr job hj).2 next hnext
    refine ⟨hn, ?_⟩
    rw [hn]
    exact onRate_iff _ (List.sum_nonneg hnonneg)
  · intro before plan late hc hpos hlt hlast
    have hj : (run (before ++ [.schedule provider plan start])).jobOf provider =
        some (Job.create plan (.every period) start) := by
      rw [run_snoc, after, schedule_ok hc]
      exact Fields.get?_insert_self ..
    have hd : (Job.create plan (.every period) start).isDue (start + late) := by
      simp [Job.create, Job.isDue, Cadence.first?, hpos.le]
    refine ⟨(Job.create plan (.every period) start).fire (start + late), ?_, ?_, ?_⟩
    · rw [List.append_cons, run_snoc, after, jobOf_tick, hj, Option.map_some, if_pos hd]
    · rw [Job.fire, Job.create]
      dsimp only
      rw [Cadence.next?, if_pos hlast]
    · intro k hk
      have hone : start + (1 : Nat) * period + late = start + k * period := by
        rw [← hk, Nat.cast_one]
        ring
      have hle := Int.le_of_dvd hpos ((onRate_iff 1 hpos.le).mp ⟨k, hone⟩)
      omega

/-- An hour's firings that start five and then seven seconds late. -/
def lateHours : List Event := [.tick 5, .complete 0 (.ok default), .tick 3612]

theorem next_run_drifts_hourly :
    (run [.tick 0]).Starts "a" 3600 0 (.schedule "a" hourly 0) ∧
    (∀ x ∈ lateHours, ¬ Event.Restarts "a" x) ∧
    (∃ job, (run ([.tick 0] ++ .schedule "a" hourly 0 :: lateHours)).jobOf "a" = some job ∧
      job.nextRun = some 7212 ∧ ¬ ∃ k : Nat, (7212 : Int) = 0 + k * (3600 : Nat)) ∧
    ∃ job, (run ([.tick 0] ++ [.schedule "a" hourly 0, .tick (0 + 5)])).jobOf "a" = some job ∧
      job.nextRun = some (0 + 5 + (3600 : Nat)) ∧
      ∀ k : Nat, (0 : Int) + 5 + (3600 : Nat) ≠ 0 + k * (3600 : Nat) := by
  have hs : (run [.tick 0]).Starts "a" 3600 0 (.schedule "a" hourly 0) := ⟨rfl, rfl, rfl⟩
  have hr : ∀ x ∈ lateHours, ¬ Event.Restarts "a" x := by
    simp [lateHours, Event.Restarts, Event.Schedules]
  have hdrift := next_run_drifts "a" 3600 0
  have hdelays : delays "a" ((run [.tick 0]).after (.schedule "a" hourly 0)) lateHours = [5, 7] := by
    decide +kernel
  have hnext : ((run ([.tick 0] ++ .schedule "a" hourly 0 :: lateHours)).jobOf "a").map
      Job.nextRun = some (some 7212) := by
    decide +kernel
  obtain ⟨job, hj, hn⟩ := Option.map_eq_some_iff.mp hnext
  have hoff := ((hdrift.1 [.tick 0] _ lateHours hs hr).2 job 7212 hj hn).2
  rw [hdelays] at hoff
  refine ⟨hs, hr, ⟨job, hj, hn, fun hk => ?_⟩, ?_⟩
  · exact absurd (hoff.mp hk) (by decide)
  · exact hdrift.2 [.tick 0] hourly 5 rfl (by decide) (by decide) (by decide)

end Scheduler

end TrieFeed.Schedule
