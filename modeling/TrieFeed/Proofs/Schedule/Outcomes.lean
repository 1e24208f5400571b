import TrieFeed.Proofs.Schedule.Runs
/-!
# Schedules and outcomes

What runs end in is noted beside the schedule and never read by it. Apart from these notes, the
scheduler is a function of its operations alone, so that failures and crashes neither remove jobs
nor put them off.
-/
namespace TrieFeed.Schedule

open Ingest (Report)

/-- An operation of the scheduler, apart from what runs end in. -/
inductive Operation where
  | schedule (provider : String) (plan : Plan) (now : Int)
  | cancel (provider : String)
  | enable (provider : String) (now : Int)
  | disable (provider : String)
  /-- A run outside of the schedule ends; its start changes nothing. -/
  | trigger (provider : String) (instant : Int)
  | tick (now : Int)
  /-- The firing at a position ends. -/
  | complete (position : Nat)

def isCrash : Except PluginError Report → Bool
  | .error (.contract (.crashed _)) => true
  | _ => false

/-- What the scheduler sees of an operation. A crash comes to it as an error of the firing, and not at
all from a run outside of the schedule. -/
def Operation.event? (result : Except PluginError Report) : Operation → Option Event
  | .schedule provider plan now => some (.schedule provider plan now)
  | .cancel provider => some (.cancel provider)
  | .enable provider now => some (.enable provider now)
  | .disable provider => some (.disable provider)
  | .trigger provider instant =>
    if isCrash result then none else some (.record provider instant result)
  | .tick now => some (.tick now)
  | .complete position => some (.complete position (Executor.contained result))

/-- The operation is the end of a run. -/
def Operation.EndsRun : Operation → Prop
  | .trigger .. | .complete .. => True
  | _ => False

/-- The job without what its runs have ended in. -/
def Job.unmarked (job : Job) : Job :=
  { job with lastRun := none, lastResult := none, lastError := none }

theorem Job.record_unmarked (instant : Int) (result : Except PluginError Report) (job : Job) :
    (job.record instant result).unmarked = job.unmarked := by
  cases result <;> rfl

/-- What decides when a job fires. -/
def Job.timing (job : Job) : Bool × Bool × Option Int := (job.enabled, job.inFlight, job.nextRun)

namespace Scheduler

variable {s t : Scheduler} {provider : String}

def unmarked (s : Scheduler) : Scheduler :=
  { s with jobs := s.jobs.map fun (name, job) => (name, job.unmarked) }

def follow (s : Scheduler) (step : Operation × Except PluginError Report) : Scheduler :=
  match step.1.event? step.2 with
  | some e => s.after e
  | none => s

/-- Operations in order from the empty scheduler on, each with what its run ends in if it ends one. -/
def play (steps : List (Operation × Except PluginError Report)) : Scheduler :=
  steps.foldl follow empty

/-! ## Operations without outcomes -/

/-- Ends the firing at a position and notes nothing. -/
def release (position : Nat) (s : Scheduler) : Scheduler :=
  match s.firings[position]? with
  | none => s
  | some firing => { s with firings := s.firings.eraseIdx position }.change firing.provider
      fun job => { job with inFlight := false }

/-- What an operation does whatever its run ends in. -/
def followPlain (s : Scheduler) : Operation → Scheduler
  | .schedule provider plan now => (s.schedule provider plan now).2
  | .cancel provider => (s.cancel provider).2
  | .enable provider now => (s.enable provider now).2
  | .disable provider => (s.disable provider).2
  | .trigger _ _ => s
  | .tick now => s.tick now
  | .complete position => s.release position

theorem jobOf_unmarked (s : Scheduler) (provider : String) :
    s.unmarked.jobOf provider = (s.jobOf provider).map Job.unmarked :=
  Fields.get?_map Job.unmarked ..

theorem change_id (s : Scheduler) (provider : String) : s.change provider id = s := by
  rw [change]
  cases hj : Fields.get? provider s.jobs with
  | none => rfl
  | some job =>
    dsimp only [id]
    rw [Fields.insert_eq_self hj]

theorem unmarked_change {f g : Job → Job} (h : ∀ job, (f job).unmarked = g job.unmarked)
    (s : Scheduler) (provider : String) :
    (s.change provider f).unmarked = s.unmarked.change provider g := by
  have hj := jobOf_unmarked s provider
  rw [jobOf, jobOf] at hj
  rw [change, change, hj]
  cases Fields.get? provider s.jobs with
  | none => rfl
  | some job =>
    rw [Option.map_some, unmarked, Fields.map_insert Job.unmarked, h]
    rfl

theorem unmarked_record (s : Scheduler) (provider : String) (instant : Int)
    (result : Except PluginError Report) :
    (s.record provider instant result).unmarked = s.unmarked := by
  have hr (job : Job) : (job.record instant result).unmarked = id job.unmarked :=
    job.record_unmarked instant result
  rw [record, unmarked_change hr, change_id]

theorem unmarked_schedule (s : Scheduler) (provider : String) (plan : Plan) (now : Int) :
    (s.schedule provider plan now).2.unmarked = (s.unmarked.schedule provider plan now).2 := by
  cases hc : Cadence.ofPlan plan with
  | error fault => rw [schedule_error hc, schedule_error hc]
  | ok cadence =>
    rw [schedule_ok hc, schedule_ok hc, unmarked, Fields.map_insert Job.unmarked]
    rfl

theorem unmarked_cancel (s : Scheduler) (provider : String) :
    (s.cancel provider).2.unmarked = (s.unmarked.cancel provider).2 := by
  rw [cancel, cancel, unmarked, Fields.map_erase Job.unmarked]
  rfl

/-- Whether a job is due does not depend on the notes, and neither does the order of the jobs. -/
theorem unmarked_tick (s : Scheduler) (now : Int) :
    (s.tick now).unmarked = s.unmarked.tick now := by
  have hs := Fields.map_sorted Job.unmarked s.jobs
  have hj (job : Job) : (if job.isDue now then job.fire now else job).unmarked =
      if job.unmarked.isDue now then job.unmarked.fire now else job.unmarked := by
    cases hd : job.isDue now with
    | false => rw [show job.unmarked.isDue now = false from hd]; rfl
    | true => rw [show job.unmarked.isDue now = true from hd]; rfl
  rw [tick, tick, unmarked, unmarked]
  dsimp only
  rw [← hs, List.filter_map, List.map_map, List.map_map, List.map_map]
  congr 1
  apply List.map_congr_left
  intro field _
  exact congrArg (Prod.mk field.1) (hj field.2)

theorem unmarked_complete (s : Scheduler) (position : Nat) (result : Except PluginError Report) :
    (s.complete position result).unmarked = s.unmarked.release position := by
  have hf : s.unmarked.firings = s.firings := rfl
  have hr (firing : Firing) (job : Job) :
      (Job.record firing.instant result { job with inFlight := false }).unmarked =
        { job.unmarked with inFlight := false } :=
    Job.record_unmarked firing.instant result { job with inFlight := false }
  rw [complete, release, hf]
  cases s.firings[position]? with
  | none => rfl
  | some firing => exact unmarked_change (hr firing) _ _

theorem unmarked_follow (s : Scheduler) (op : Operation) (result : Except PluginError Report) :
    (s.follow (op, result)).unmarked = s.unmarked.followPlain op := by
  cases op with
  | schedule provider plan now => exact unmarked_schedule s provider plan now
  | cancel provider => exact unmarked_cancel s provider
  | enable provider now =>
    rw [follow, Operation.event?, followPlain, enable_eq]
    dsimp only
    rw [after, enable_eq]
    apply unmarked_change
    intro job
    rfl
  | disable provider =>
    rw [follow, Operation.event?, followPlain, disable_eq]
    dsimp only
    rw [after, disable_eq]
    apply unmarked_change
    intro job
    rfl
  | trigger provider instant =>
    rw [follow, Operation.event?, followPlain]
    cases isCrash result with
    | true => rfl
    | false => exact unmarked_record ..
  | tick now => exact unmarked_tick s now
  | complete position => exact unmarked_complete s position _

theorem unmarked_foldl (steps : List (Operation × Except PluginError Report)) (s : Scheduler) :
    (steps.foldl follow s).unmarked = (steps.map Prod.fst).foldl followPlain s.unmarked := by
  induction steps generalizing s with
  | nil => rfl
  | cons step rest ih =>
    rw [List.foldl_cons, List.map_cons, List.foldl_cons, ih, unmarked_follow]

/-- Apart from the notes, a run is made by its operations alone. -/
theorem unmarked_play (steps : List (Operation × Except PluginError Report)) :
    (play steps).unmarked = (steps.map Prod.fst).foldl followPlain empty :=
  unmarked_foldl steps empty

/-! ## Schedulers that differ in notes only -/

theorem timing_eq (h : s.unmarked = t.unmarked) (provider : String) :
    (s.jobOf provider).map Job.timing = (t.jobOf provider).map Job.timing := by
  have hu (r : Scheduler) :
      (r.jobOf provider).map Job.timing = (r.unmarked.jobOf provider).map Job.timing := by
    rw [jobOf_unmarked, Option.map_map]
    rfl
  rw [hu s, hu t, h]

theorem firings_tick_eq (h : s.unmarked = t.unmarked) (now : Int) :
    (s.tick now).firings = (t.tick now).firings := by
  have hu (r : Scheduler) : (r.tick now).firings = (r.unmarked.tick now).firings := by
    rw [← unmarked_tick]
    rfl
  rw [hu s, hu t, h]

theorem change_stays {f : Job → Job}
    (hf : ∀ job, (f job).enabled = job.enabled ∧ (f job).nextRun = job.nextRun) {job : Job}
    (hj : s.jobOf provider = some job) (other : String) :
    ∃ after, (s.change other f).jobOf provider = some after ∧ after.enabled = job.enabled ∧
      after.nextRun = job.nextRun := by
  by_cases ho : other = provider
  · subst ho
    exact ⟨f job, by rw [jobOf_change_self, hj]; rfl, hf job⟩
  · exact ⟨job, by rw [jobOf_change_of_ne ho, hj], rfl, rfl⟩

/-- The end of a run leaves every job there, and when it fires next. -/
theorem follow_stays {op : Operation} (ho : op.EndsRun) (result : Except PluginError Report)
    {job : Job} (hj : s.jobOf provider = some job) :
    ∃ after, (s.follow (op, result)).jobOf provider = some after ∧ after.enabled = job.enabled ∧
      after.nextRun = job.nextRun := by
  have hr (instant : Int) (result : Except PluginError Report) (job : Job) :
      (job.record instant result).enabled = job.enabled ∧
        (job.record instant result).nextRun = job.nextRun := by
    have hu := job.record_unmarked instant result
    have he := congrArg Job.enabled hu
    have hn := congrArg Job.nextRun hu
    exact ⟨he, hn⟩
  cases op with
  | trigger name instant =>
    rw [follow, Operation.event?]
    cases isCrash result with
    | true => exact ⟨job, hj, rfl, rfl⟩
    | false => exact change_stays (hr instant result) hj name
  | complete position =>
    rw [follow, Operation.event?]
    dsimp only
    rw [after]
    cases hf : s.firings[position]? with
    | none =>
      rw [complete, hf]
      exact ⟨job, hj, rfl, rfl⟩
    | some firing =>
      rw [complete_eq hf]
      have hj : jobOf { s with firings := s.firings.eraseIdx position } provider = some job := hj
      refine change_stays (fun job => ?_) hj firing.provider
      exact hr firing.instant _ { job with inFlight := false }
  | schedule | cancel | enable | disable | tick => exact ho.elim

end Scheduler

/-! ## Executors -/

namespace Executor

open Scheduler (unmarked_tick unmarked_record unmarked_complete)

variable {σ τ : Type} {s t : Scheduler}

theorem unmarked_trigger (x : Executor σ) (provider : String) (target? : Option String)
    (config? : Option Record) (now : Int) (s : Scheduler) (a : σ) (store : TrieStore) :
    (x.trigger provider target? config? now s a store).2.1.unmarked = s.unmarked := by
  rw [trigger]
  split
  · rfl
  · exact unmarked_record ..

/-- Whatever the providers of two executors do, the same firings end. -/
theorem unmarked_settle (x : Executor σ) (y : Executor τ) (goesOn : Firing → Bool)
    (firings : List Firing) (position : Nat) (h : s.unmarked = t.unmarked) (a : σ) (b : τ)
    (store other : TrieStore) :
    (x.settle goesOn position firings s a store).1.unmarked =
      (y.settle goesOn position firings t b other).1.unmarked := by
  induction firings generalizing position s t a b store other with
  | nil => exact h
  | cons firing rest ih =>
    rw [settle, settle]
    split
    · exact ih (position + 1) h ..
    · apply ih
      rw [unmarked_complete, unmarked_complete, h]

theorem unmarked_advance (x : Executor σ) (y : Executor τ) (goesOn : Firing → Bool) (now : Int)
    (h : s.unmarked = t.unmarked) (a : σ) (b : τ) (store other : TrieStore) :
    (x.advance goesOn now s a store).1.unmarked = (y.advance goesOn now t b other).1.unmarked := by
  have hr : s.unmarked.isRunning = t.unmarked.isRunning := by rw [h]
  have ht : (s.tick now).unmarked = (t.tick now).unmarked := by
    rw [unmarked_tick, unmarked_tick, h]
  have hf : (s.tick now).firings = (t.tick now).firings := Scheduler.firings_tick_eq h now
  rw [advance, advance, show s.isRunning = t.isRunning from hr]
  split
  · dsimp only
    rw [hf]
    exact unmarked_settle x y goesOn _ 0 ht a b store other
  · exact h

end Executor

namespace Scheduler

/-- Two runs with the same operations, whatever the runs of providers end in, have the same jobs but
for the notes on them, and the same firings. At every point each provider's job is enabled, in flight
and next due in both or in neither, and a tick starts the same firings. The end of a run, a failure
or a crash among others, leaves every job there and as it is enabled and due. Two executors bring
schedulers that differ in notes only to such again, whatever their providers do. -/
theorem outcomes_leave_schedule (first second : List (Operation × Except PluginError Report))
    (h : first.map Prod.fst = second.map Prod.fst) :
    (∀ n, (play (first.take n)).unmarked = (play (second.take n)).unmarked ∧
      (∀ provider, ((play (first.take n)).jobOf provider).map Job.timing =
        ((play (second.take n)).jobOf provider).map Job.timing) ∧
      ∀ now, ((play (first.take n)).tick now).firings = ((play (second.take n)).tick now).firings) ∧
    (∀ (s : Scheduler) op result, op.EndsRun → ∀ provider job, s.jobOf provider = some job →
      ∃ after, (s.follow (op, result)).jobOf provider = some after ∧
        after.enabled = job.enabled ∧ after.nextRun = job.nextRun) ∧
    ∀ (σ τ : Type) (x : Executor σ) (y : Executor τ) (s t : Scheduler),
      s.unmarked = t.unmarked → ∀ (a : σ) (b : τ) (store other : TrieStore),
        (∀ goesOn now, (x.advance goesOn now s a store).1.unmarked =
          (y.advance goesOn now t b other).1.unmarked) ∧
        ∀ provider target? config? now,
          (x.trigger provider target? config? now s a store).2.1.unmarked =
            (y.trigger provider target? config? now t b other).2.1.unmarked := by
  refine ⟨fun n => ?_, fun s op result ho provider job hj => follow_stays ho result hj, ?_⟩
  · have hu : (play (first.take n)).unmarked = (play (second.take n)).unmarked := by
      rw [unmarked_play, unmarked_play, List.map_take, List.map_take, h]
    exact ⟨hu, timing_eq hu, firings_tick_eq hu⟩
  · intro σ τ x y s t h a b store other
    refine ⟨fun goesOn now => Executor.unmarked_advance x y goesOn now h a b store other, ?_⟩
    intro provider target? config? now
    rw [Executor.unmarked_trigger, Executor.unmarked_trigger, h]

/-- Two firings, an hour apart, of a job that starts at once, with a run outside of the schedule in
between. -/
def twoFirings : List Operation :=
  [.schedule "a" { Plan.blank with interval := some "1h" } 0, .tick 0, .complete 0, .trigger "a" 5,
    .tick 3600, .complete 0]

theorem outcomes_leave_schedule_crashed :
    let calm := twoFirings.map fun op => (op, (.ok default : Except PluginError Report))
    let crashed := twoFirings.map fun op =>
      (op, (.error (.contract (.crashed "x")) : Except PluginError Report))
    calm.map Prod.fst = crashed.map Prod.fst ∧
    ((play (calm.take 5)).jobOf "a").map Job.timing = some (true, true, some 7200) ∧
    ((play (crashed.take 5)).jobOf "a").map Job.timing = some (true, true, some 7200) := by
  intro calm crashed
  have h : calm.map Prod.fst = crashed.map Prod.fst := rfl
  have hc : ((play (calm.take 5)).jobOf "a").map Job.timing = some (true, true, some 7200) := by
    decide +kernel
  have heq := ((outcomes_leave_schedule calm crashed h).1 5).2.1 "a"
  exact ⟨h, hc, heq ▸ hc⟩

end Scheduler

end TrieFeed.Schedule
