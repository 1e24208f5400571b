import TrieFeed.Proofs.Schedule.Overlap
/-!
# Notes on jobs

A job shows when a run was last noted on it and what runs have ended in. A run is noted on whatever
job its provider has when it ends, which need not be the one that it was started for. An account of
the provider's runs tells which of them a job shows, and when these were started.
-/
namespace TrieFeed.Schedule

open Ingest (Report)

instance (provider : String) (e : Event) : Decidable (e.Schedules provider) :=
  match e with
  | .schedule name plan _ =>
    decidable_of_iff (name = provider ∧ (Cadence.ofPlan plan).isOk) (by
      cases hc : Cadence.ofPlan plan <;> simp [Event.Schedules, hc, Except.isOk, Except.toBool])
  | .cancel _ | .enable .. | .disable _ | .record .. | .tick _ | .complete .. => isFalse id

/-- A run of a provider that has ended. -/
structure Ending where
  /-- How many events there had been when it started. -/
  began : Nat
  /-- The instant that is noted for it. -/
  instant : Int
  result : Except PluginError Report

/-- What a job shows of its runs. -/
structure Notes where
  lastRun : Option Int
  lastResult : Option Report
  lastError : Option PluginError

def Job.notes (job : Job) : Notes := ⟨job.lastRun, job.lastResult, job.lastError⟩

def Ending.error? (x : Ending) : Option PluginError :=
  match x.result with
  | .ok _ => none
  | .error e => some e

/-- What is to be shown after endings: the last instant, the last report, and the last error unless a
report has come after it. -/
def notesOf (endings : List Ending) : Notes where
  lastRun := endings.getLast?.map (·.instant)
  lastResult := (endings.filterMap (·.result.toOption)).getLast?
  lastError := endings.getLast?.bind (·.error?)

theorem notes_record {job : Job} {endings : List Ending} (h : job.notes = notesOf endings)
    (x : Ending) : (job.record x.instant x.result).notes = notesOf (endings ++ [x]) := by
  obtain ⟨began, instant, result⟩ := x
  have hr : job.lastResult = (endings.filterMap (·.result.toOption)).getLast? :=
    congrArg Notes.lastResult h
  rw [notesOf, List.filterMap_append, List.getLast?_concat]
  cases result with
  | ok report =>
    have hone : [(⟨began, instant, .ok report⟩ : Ending)].filterMap (·.result.toOption) =
        [report] := rfl
    rw [hone, List.getLast?_concat]
    rfl
  | error e =>
    have hone : [(⟨began, instant, .error e⟩ : Ending)].filterMap (·.result.toOption) = [] := rfl
    rw [hone, List.append_nil, ← hr]
    rfl

namespace Scheduler

variable {s : Scheduler} {provider : String} {e : Event}

/-- What an event notes on the job of a provider. -/
def noted? (s : Scheduler) (provider : String) : Event → Option (Int × Except PluginError Report)
  | .record name instant result => if name = provider then some (instant, result) else none
  | .complete position result =>
    (s.firings[position]?.filter (·.provider = provider)).map fun firing =>
      (firing.instant, result)
  | _ => none

/-! ## One event -/

/-- What is noted is the end of a run outside of the schedule, or that of a firing. -/
theorem noted_cases {noted : Int × Except PluginError Report}
    (hn : s.noted? provider e = some noted) :
    e = .record provider noted.1 noted.2 ∨ ∃ position firing,
      e = .complete position noted.2 ∧ s.firings[position]? = some firing ∧
      firing.provider = provider ∧ firing.instant = noted.1 := by
  cases e with
  | record name instant result =>
    rw [noted?] at hn
    split at hn
    · rename_i hname
      cases hn
      exact .inl (by rw [hname])
    · cases hn
  | complete position result =>
    obtain ⟨firing, hf, rfl⟩ := Option.map_eq_some_iff.mp hn
    obtain ⟨hf, hp⟩ := Option.filter_eq_some_iff.mp hf
    exact .inr ⟨position, firing, rfl, hf, of_decide_eq_true hp, rfl⟩
  | schedule | cancel | enable | disable | tick => cases hn

theorem noted_complete {position : Nat} {firing : Firing}
    (hf : s.firings[position]? = some firing) (hp : firing.provider = provider)
    (result : Except PluginError Report) :
    s.noted? provider (.complete position result) = some (firing.instant, result) := by
  rw [noted?, hf, Option.filter_some, if_pos (decide_eq_true hp)]
  rfl

theorem after_schedules (h : e.Schedules provider) :
    ∃ plan cadence now, e = .schedule provider plan now ∧ Cadence.ofPlan plan = .ok cadence ∧
      (s.after e).jobOf provider = some (Job.create plan cadence now) := by
  cases e with
  | schedule name plan now =>
    obtain ⟨rfl, cadence, hc⟩ := h
    refine ⟨plan, cadence, now, rfl, hc, ?_⟩
    rw [after, schedule_ok hc]
    exact Fields.get?_insert_self ..
  | cancel | enable | disable | record | tick | complete => exact h.elim

/-- A job that is not put in place by an event was there before, and shows what it showed then unless
the event notes something on it. -/
theorem notes_after (hn : ¬ e.Schedules provider) {job : Job}
    (hj : (s.after e).jobOf provider = some job) :
    ∃ old, s.jobOf provider = some old ∧ job.notes = ((s.noted? provider e).elim old.notes
      fun noted => (old.record noted.1 noted.2).notes) := by
  obtain ⟨old, ho, rfl⟩ := exists_updated hn hj
  refine ⟨old, ho, ?_⟩
  cases e with
  | schedule | cancel => rfl
  | enable | disable | tick =>
    rw [updated]
    split <;> rfl
  | record name instant result =>
    rw [updated, noted?]
    split <;> rfl
  | complete position result =>
    rw [updated, noted?]
    cases s.firings[position]?.filter (·.provider = provider) with
    | none => rfl
    | some firing => cases result <;> rfl

end Scheduler

/-! ## Accounts -/

/-- What has happened to a provider, in numbers of events. -/
structure Account where
  /-- How many events there have been. -/
  count : Nat
  /-- How many there had been when the latest job was in place. -/
  since : Nat
  /-- The firings that run, each with how many events there had been before its tick. -/
  started : List (Firing × Nat)
  /-- The runs that have ended since then. -/
  endings : List Ending

namespace Account

def empty : Account := ⟨0, 0, [], []⟩

/-- The firings that run after an event. -/
def startedAfter (a : Account) (s : Scheduler) : Event → List (Firing × Nat)
  | .tick now =>
    a.started ++ ((s.tick now).firings.drop s.firings.length).map fun firing => (firing, a.count)
  | .complete position _ => a.started.eraseIdx position
  | _ => a.started

/-- How many events there had been when the run started that an event ends. -/
def beganOf (a : Account) (began : Nat → Nat) : Event → Nat
  | .complete position _ => (a.started[position]?.map (·.2)).getD 0
  | _ => began a.count

def after (provider : String) (began : Nat → Nat) (s : Scheduler) (a : Account) (e : Event) :
    Account where
  count := a.count + 1
  since := if e.Schedules provider then a.count + 1 else a.since
  started := a.startedAfter s e
  endings :=
    if e.Schedules provider then []
    else a.endings ++ ((s.noted? provider e).map fun noted =>
      (⟨a.beganOf began e, noted.1, noted.2⟩ : Ending)).toList

end Account

namespace Scheduler

variable {s : Scheduler} {provider : String} {e : Event} {began : Nat → Nat} {events : List Event}

/-- The account of a provider after events. Of a run outside of the schedule, which ends with the
event of a number, `began` tells how many events there had been when it started. -/
def account (provider : String) (began : Nat → Nat) (events : List Event) : Account :=
  (events.foldl (fun (s, a) e => (s.after e, a.after provider began s e)) (empty, .empty)).2

theorem run_eq_foldl (provider : String) (began : Nat → Nat) (events : List Event) :
    (events.foldl (fun (s, a) e => (s.after e, a.after provider began s e))
      (empty, Account.empty)).1 = run events := by
  induction events using List.reverseRecOn with
  | nil => rfl
  | append_singleton events e ih => rw [List.foldl_concat, run_snoc, ← ih]

theorem account_snoc (provider : String) (began : Nat → Nat) (events : List Event) (e : Event) :
    account provider began (events ++ [e]) =
      (account provider began events).after provider began (run events) e := by
  rw [account, List.foldl_concat, account, ← run_eq_foldl provider began events]

theorem account_count (provider : String) (began : Nat → Nat) (events : List Event) :
    (account provider began events).count = events.length := by
  induction events using List.reverseRecOn with
  | nil => rfl
  | append_singleton events e ih =>
    rw [account_snoc, Account.after, List.length_append, ih]
    rfl

theorem startedAfter_firings {a : Account} (h : a.started.map Prod.fst = s.firings) (e : Event) :
    (a.startedAfter s e).map Prod.fst = (s.after e).firings := by
  cases e with
  | tick now =>
    rw [Account.startedAfter, List.map_append, h, List.map_map, after, tick]
    dsimp only
    rw [List.drop_left]
    congr 1
    exact List.map_id _
  | complete position result =>
    rw [Account.startedAfter, after, firings_complete, ← h, List.eraseIdx_eq_take_drop_succ,
      List.eraseIdx_eq_take_drop_succ, List.map_append, List.map_take, List.map_drop]
  | schedule | cancel | enable | disable | record => exact h.trans (firings_kept id).symm

/-- A firing that runs after an event ran before it, or is started by it. -/
theorem firings_after {firing : Firing} (hf : firing ∈ (s.after e).firings) :
    firing ∈ s.firings ∨ e = .tick firing.instant := by
  cases e with
  | tick now =>
    rcases List.mem_append.mp hf with hf | hf
    · exact .inl hf
    · obtain ⟨_, -, rfl⟩ := List.mem_map.mp hf
      exact .inr rfl
  | complete position result =>
    rw [after, firings_complete] at hf
    exact .inl (List.mem_of_mem_eraseIdx hf)
  | schedule | cancel | enable | disable | record =>
    rw [firings_kept id] at hf
    exact .inl hf

/-- The account has all firings that run. -/
theorem account_firings (provider : String) (began : Nat → Nat) (events : List Event) :
    (account provider began events).started.map Prod.fst = (run events).firings := by
  induction events using List.reverseRecOn with
  | nil => rfl
  | append_singleton events e ih =>
    rw [account_snoc, run_snoc]
    exact startedAfter_firings ih e

/-- A job shows what has ended since it was put in place, and nothing else. -/
theorem run_notes (provider : String) (began : Nat → Nat) (events : List Event) {job : Job}
    (hj : (run events).jobOf provider = some job) :
    job.notes = notesOf (account provider began events).endings := by
  induction events using List.reverseRecOn generalizing job with
  | nil => cases hj
  | append_singleton events e ih =>
    rw [run_snoc] at hj
    rw [account_snoc, Account.after]
    dsimp only
    by_cases hs : e.Schedules provider
    · obtain ⟨plan, cadence, now, -, -, hp⟩ := after_schedules (s := run events) hs
      rw [if_pos hs]
      cases hp.symm.trans hj
      rfl
    · rw [if_neg hs]
      obtain ⟨old, ho, hn⟩ := notes_after hs hj
      rw [hn]
      cases (run events).noted? provider e with
      | none =>
        rw [Option.map_none, Option.toList_none, List.append_nil]
        exact ih ho
      | some noted => exact notes_record (ih ho) ⟨_, noted.1, noted.2⟩

/-! ## Runs that are no older than their job -/

/-- The latest job was put in place by an event, and since then none has. -/
theorem account_since (provider : String) (began : Nat → Nat) (events : List Event) :
    (account provider began events).since = 0 ∨ ∃ earlier e, earlier ++ [e] <+: events ∧
      e.Schedules provider ∧ (account provider began events).since = earlier.length + 1 := by
  induction events using List.reverseRecOn with
  | nil => exact .inl rfl
  | append_singleton events e ih =>
    rw [account_snoc, Account.after, account_count]
    dsimp only
    by_cases hs : e.Schedules provider
    · exact .inr ⟨events, e, List.prefix_rfl, hs, if_pos hs⟩
    · rw [if_neg hs]
      rcases ih with hz | ⟨earlier, x, hp, hx⟩
      · exact .inl hz
      · exact .inr ⟨earlier, x, hp.trans (List.prefix_append events [e]), hx⟩

theorem account_since_le (provider : String) (began : Nat → Nat) (events : List Event) :
    (account provider began events).since ≤ events.length := by
  rcases account_since provider began events with hz | ⟨earlier, e, hp, -, he⟩
  · rw [hz]
    exact Nat.zero_le _
  · rw [he]
    have hl := hp.length_le
    rw [List.length_append] at hl
    exact hl

/-- No schedule of a provider takes effect while it is run, by the clock or outside of it. -/
structure Calm (provider : String) (began : Nat → Nat) (events : List Event) : Prop where
  firings : Undisturbed provider events
  outside : ∀ before instant result, before ++ [.record provider instant result] <+: events →
    ∀ earlier e, earlier ++ [e] <+: before → began before.length ≤ earlier.length →
      ¬ e.Schedules provider

theorem Calm.of_prefix {before : List Event} (h : Calm provider began events)
    (hp : before <+: events) : Calm provider began before where
  firings := h.firings.of_prefix hp
  outside earlier instant result he := h.outside earlier instant result (he.trans hp)

theorem since_le_began (hc : Calm provider began events) {before : List Event} {instant : Int}
    {result : Except PluginError Report}
    (hp : before ++ [.record provider instant result] <+: events) :
    (account provider began before).since ≤ began before.length := by
  rcases account_since provider began before with hz | ⟨earlier, e, he, hs, hl⟩
  · rw [hz]
    exact Nat.zero_le _
  · rw [hl]
    by_contra hlt
    exact hc.outside before instant result hp earlier e he (by omega) hs

theorem not_mem_of_firingCount (h : s.firingCount provider = 0) {firing : Firing}
    (hm : firing ∈ s.firings) : firing.provider ≠ provider := by
  have hz := List.countP_eq_zero.mp h firing hm
  exact fun hp => hz (decide_eq_true hp)

theorem started_mem (provider : String) (began : Nat → Nat) (events : List Event)
    {x : Firing × Nat} (hx : x ∈ (account provider began events).started) :
    x.1 ∈ (run events).firings := by
  rw [← account_firings provider began events]
  exact List.mem_map_of_mem hx

/-- Firings that run are no older than the job of their provider, if it is only scheduled when none
does. -/
theorem since_le_started (hu : Undisturbed provider events) {x : Firing × Nat}
    (hx : x ∈ (account provider began events).started) (hp : x.1.provider = provider) :
    (account provider began events).since ≤ x.2 := by
  induction events using List.reverseRecOn generalizing x with
  | nil => cases hx
  | append_singleton events e ih =>
    have hold := @ih (hu.of_prefix (List.prefix_append events [e]))
    rw [account_snoc, Account.after] at hx ⊢
    dsimp only at hx ⊢
    by_cases hs : e.Schedules provider
    · have hz := hu events e List.prefix_rfl hs
      obtain ⟨plan, cadence, now, rfl, -⟩ := after_schedules (s := run events) hs
      exact absurd hp (not_mem_of_firingCount hz (started_mem provider began events hx))
    · rw [if_neg hs]
      cases e with
      | tick now =>
        rcases List.mem_append.mp hx with hx | hx
        · exact hold hx hp
        · obtain ⟨firing, -, rfl⟩ := List.mem_map.mp hx
          dsimp only
          rw [account_count]
          exact account_since_le ..
      | complete position result => exact hold (List.mem_of_mem_eraseIdx hx) hp
      | schedule | cancel | enable | disable | record => exact hold hx hp

/-- What is shown is no older than the job, if the provider is only scheduled when no run of it is
under way. -/
theorem since_le_endings (hc : Calm provider began events) {x : Ending}
    (hx : x ∈ (account provider began events).endings) :
    (account provider began events).since ≤ x.began := by
  induction events using List.reverseRecOn generalizing x with
  | nil => cases hx
  | append_singleton events e ih =>
    have hcalm := hc.of_prefix (List.prefix_append events [e])
    rw [account_snoc, Account.after] at hx ⊢
    dsimp only at hx ⊢
    by_cases hs : e.Schedules provider
    · rw [if_pos hs] at hx
      cases hx
    · rw [if_neg hs] at hx ⊢
      rcases List.mem_append.mp hx with hx | hx
      · exact ih hcalm hx
      · obtain ⟨noted, hn, rfl⟩ := Option.map_eq_some_iff.mp (Option.mem_toList.mp hx)
        rcases noted_cases hn with rfl | ⟨position, firing, rfl, hf, hp, -⟩
        · have hb := since_le_began hc List.prefix_rfl
          rw [← account_count] at hb
          exact hb
        · rw [← account_firings provider began, List.getElem?_map] at hf
          obtain ⟨x, hx, rfl⟩ := Option.map_eq_some_iff.mp hf
          rw [Account.beganOf, hx]
          exact since_le_started hcalm.firings (List.mem_of_getElem? hx) hp

end Scheduler

end TrieFeed.Schedule
