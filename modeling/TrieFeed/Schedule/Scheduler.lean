import TrieFeed.Ingest.Run
import TrieFeed.Plugin.Manifest
import TrieFeed.Provider.Registry
import TrieFeed.Schedule.Cadence
import TrieFeed.Schedule.TargetName
/-!
# The scheduler

A scheduler keeps one job for each provider's name. The start of a firing and its completion are
steps of their own, and whatever a firing ends in is recorded on the job that then has the name.
Instants are given to every step, never read.
-/
namespace TrieFeed.Schedule

open Ingest (Report)

/-- A provider's recurring ingestion. -/
structure Job where
  plan : Plan
  cadence : Cadence
  enabled : Bool
  inFlight : Bool
  lastRun : Option Int
  nextRun : Option Int
  lastResult : Option Report
  lastError : Option PluginError

namespace Job

/-- A job that is scheduled now. -/
def create (plan : Plan) (cadence : Cadence) (now : Int) : Job :=
  ⟨plan, cadence, true, false, none, cadence.first? now, none, none⟩

def isDue (now : Int) (job : Job) : Bool :=
  job.enabled && !job.inFlight && job.nextRun.any (· ≤ now)

/-- The job while it fires. -/
def fire (now : Int) (job : Job) : Job :=
  { job with inFlight := true, nextRun := job.cadence.next? now }

/-- Notes what a run has ended in; a report takes the last error away. -/
def record (instant : Int) (result : Except PluginError Report) (job : Job) : Job :=
  match result with
  | .ok report => { job with lastRun := some instant, lastResult := some report, lastError := none }
  | .error e => { job with lastRun := some instant, lastError := some e }

end Job

/-- A run that the clock has started. -/
structure Firing where
  provider : String
  plan : Plan
  instant : Int
deriving Inhabited

structure Scheduler where
  jobs : Fields Job
  isRunning : Bool
  /-- Firings that have not completed. -/
  firings : List Firing

namespace Scheduler

def empty : Scheduler := ⟨[], false, []⟩

def notScheduled (provider : String) : PluginError :=
  .schedule s!"provider `{provider}` has no schedule"

/-- Schedules a provider in place of any schedule it has. -/
def schedule (provider : String) (plan : Plan) (now : Int) (s : Scheduler) :
    Except PluginError Unit × Scheduler :=
  match Cadence.ofPlan plan with
  | .error fault => (.error fault.toError, s)
  | .ok cadence =>
    (.ok (), { s with jobs := Fields.insert provider (Job.create plan cadence now) s.jobs })

/-- Changes the job of a provider, if it has one. -/
def change (provider : String) (f : Job → Job) (s : Scheduler) : Scheduler :=
  match Fields.get? provider s.jobs with
  | some job => { s with jobs := Fields.insert provider (f job) s.jobs }
  | none => s

/-- Changes the job of a provider, which has to have one. -/
def require (provider : String) (f : Job → Job) (s : Scheduler) :
    Except PluginError Unit × Scheduler :=
  if Fields.has provider s.jobs then (.ok (), s.change provider f)
  else (.error (notScheduled provider), s)

/-- Takes a provider's schedule away, and answers whether there was one. -/
def cancel (provider : String) (s : Scheduler) : Bool × Scheduler :=
  (Fields.has provider s.jobs, { s with jobs := Fields.erase provider s.jobs })

/-- Lets a job fire again from now on; firings that it has missed are lost. -/
def enable (provider : String) (now : Int) : Scheduler → Except PluginError Unit × Scheduler :=
  require provider fun job => { job with enabled := true, nextRun := job.cadence.first? now }

def disable (provider : String) : Scheduler → Except PluginError Unit × Scheduler :=
  require provider fun job => { job with enabled := false }

/-- Schedules the registered providers among those of manifests with an active schedule, and answers
how many. -/
def scheduleAll (isRegistered : String → Bool) (now : Int) :
    List Manifest → Scheduler → Nat × Scheduler
  | [], s => (0, s)
  | m :: rest, s =>
    match m.activeSchedule?, isRegistered m.name with
    | some plan, true =>
      match s.schedule m.name plan now with
      | (.ok (), s) =>
        let (count, s) := scheduleAll isRegistered now rest s
        (count + 1, s)
      | (.error _, s) => scheduleAll isRegistered now rest s
    | _, _ => scheduleAll isRegistered now rest s

/-- Starts a firing of every job that is due. -/
def tick (now : Int) (s : Scheduler) : Scheduler :=
  let due := (Fields.sorted s.jobs).filter fun (_, job) => job.isDue now
  { s with
    jobs := s.jobs.map fun (provider, job) =>
      (provider, if job.isDue now then job.fire now else job)
    firings := s.firings ++ due.map fun (provider, job) => ⟨provider, job.plan, now⟩ }

/-- Notes what a run of a provider has ended in, if the provider has a job. -/
def record (provider : String) (instant : Int) (result : Except PluginError Report) :
    Scheduler → Scheduler :=
  change provider (Job.record instant result)

/-- Completes the firing at a position. -/
def complete (position : Nat) (result : Except PluginError Report) (s : Scheduler) : Scheduler :=
  match s.firings[position]? with
  | none => s
  | some firing =>
    { s with firings := s.firings.eraseIdx position }.change firing.provider fun job =>
      { job with inFlight := false }.record firing.instant result

/-- The plan by which a provider runs. -/
def planOf (provider : String) (s : Scheduler) : Plan :=
  ((Fields.get? provider s.jobs).map (·.plan)).getD .blank

def start (s : Scheduler) : Except PluginError Unit × Scheduler :=
  if s.isRunning then (.error (.schedule "scheduler is already running"), s)
  else (.ok (), { s with isRunning := true })

def stop (s : Scheduler) : Scheduler := { s with isRunning := false }

/-- The jobs in order of names. -/
def statuses (s : Scheduler) : List (String × Job) := Fields.sorted s.jobs

end Scheduler

/-! ## Runs -/

/-- What runs need besides plans. -/
structure Executor (σ : Type) where
  registry : Registry (Provider σ)
  /-- Why targets cannot be created, if they cannot. -/
  targetFault? : Option ProviderError

namespace Executor

variable {σ : Type}

/-- The scheme of targets that runs create. -/
def scheme : String := "mpf"

/-- Creates a target where the plan wants it; that it cannot be created does not end the run. -/
def ensureTarget (x : Executor σ) (plan : Plan) (target : String) (store : TrieStore) : TrieStore :=
  if plan.createsTarget && x.targetFault?.isNone then (store.ensure target scheme).2 else store

/-- Runs a provider by a plan, whose target and settings can be overridden. -/
def run (x : Executor σ) (provider : String) (plan : Plan) (target? : Option String)
    (config? : Option Record) (now : Int) (s : σ) (store : TrieStore) :
    Except PluginError Report × σ × TrieStore :=
  match x.registry.find provider with
  | .error e => (.error (.contract e), s, store)
  | .ok p =>
    let target := target?.getD (targetName (plan.target.getD "") provider now)
    match Ingest.run p target (config?.getD plan.config) s (x.ensureTarget plan target store) with
    | (result, s, store) => (result.mapError .contract, s, store)

/-- Runs a provider outside of its schedule. A crash is not recorded. -/
def trigger (x : Executor σ) (provider : String) (target? : Option String)
    (config? : Option Record) (now : Int) (schedule : Scheduler) (s : σ) (store : TrieStore) :
    Except PluginError Report × Scheduler × σ × TrieStore :=
  match x.run provider (schedule.planOf provider) target? config? now s store with
  | (.error (.contract (.crashed reason)), s, store) =>
    (.error (.contract (.crashed reason)), schedule, s, store)
  | (result, s, store) => (result, schedule.record provider now result, s, store)

/-- What a firing ends in; the clock goes on when a provider crashes. -/
def contained : Except PluginError Report → Except PluginError Report
  | .error (.contract (.crashed reason)) =>
    .error (.schedule s!"ingestion task failed: {reason}")
  | result => result

/-- Runs the firings from a position on, in order. One that goes on has made its target by then, and
stays among the firings. -/
def settle (x : Executor σ) (goesOn : Firing → Bool) (position : Nat) :
    List Firing → Scheduler → σ → TrieStore → Scheduler × σ × TrieStore
  | [], schedule, s, store => (schedule, s, store)
  | firing :: rest, schedule, s, store =>
    if goesOn firing then
      let target := targetName (firing.plan.target.getD "") firing.provider firing.instant
      settle x goesOn (position + 1) rest schedule s (x.ensureTarget firing.plan target store)
    else
      match x.run firing.provider firing.plan none none firing.instant s store with
      | (result, s, store) =>
        settle x goesOn position rest (schedule.complete position (contained result)) s store

/-- The clock's step: starts what is due, and runs what does not go on beyond the step. -/
def advance (x : Executor σ) (goesOn : Firing → Bool) (now : Int) (schedule : Scheduler) (s : σ)
    (store : TrieStore) : Scheduler × σ × TrieStore :=
  if schedule.isRunning then
    let schedule := schedule.tick now
    x.settle goesOn 0 schedule.firings schedule s store
  else (schedule, s, store)

end Executor

end TrieFeed.Schedule
