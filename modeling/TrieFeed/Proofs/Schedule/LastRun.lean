import TrieFeed.Proofs.Schedule.Notes
/-!
# The last run of a job

A firing is shown with the instant of its tick, and a run outside of the schedule with that of its
end. So the last run that a job shows goes back when a firing is completed during which another run
has ended; and a job that is put in place during a run comes to show it as its own.
-/
namespace TrieFeed.Schedule

open Ingest (Report)

/-- The instant at which an event happens, where the scheduler reads the clock for it. -/
def Event.instant? : Event → Option Int
  | .schedule _ _ now | .enable _ now | .record _ now _ | .tick now => some now
  | .cancel _ | .disable _ | .complete .. => none

namespace Scheduler

variable {s : Scheduler} {provider : String} {e : Event} {began : Nat → Nat} {events : List Event}

/-! ## The instants that are shown -/

/-- The clock never goes back. -/
def Timely (events : List Event) : Prop :=
  (events.filterMap Event.instant?).Pairwise (· ≤ ·)

theorem Timely.of_prefix {before : List Event} (h : Timely events) (hp : before <+: events) :
    Timely before :=
  h.sublist (hp.filterMap Event.instant?).sublist

theorem Timely.le {now t : Int} (h : Timely (events ++ [e])) (he : e.instant? = some now)
    (ht : t ∈ events.filterMap Event.instant?) : t ≤ now := by
  rw [Timely, List.filterMap_append, List.pairwise_append] at h
  refine h.2.2 t ht now ?_
  rw [List.filterMap_cons_some he]
  exact List.mem_cons_self

/-- Firings have instants of ticks. -/
theorem firing_instant (events : List Event) {firing : Firing}
    (hf : firing ∈ (run events).firings) :
    firing.instant ∈ events.filterMap Event.instant? := by
  induction events using List.reverseRecOn with
  | nil => cases hf
  | append_singleton events e ih =>
    rw [run_snoc] at hf
    rw [List.filterMap_append]
    rcases firings_after hf with hf | rfl
    · exact List.mem_append_left _ (ih hf)
    · exact List.mem_append_right _ List.mem_cons_self

theorem lastRun_record (instant : Int) (result : Except PluginError Report) (job : Job) :
    (job.record instant result).lastRun = some instant := by
  cases result <;> rfl

/-- A job that is not put in place by an event shows its last run as before, or that which the event
notes. -/
theorem lastRun_after (hn : ¬ e.Schedules provider) {job : Job}
    (hj : (s.after e).jobOf provider = some job) :
    ∃ old, s.jobOf provider = some old ∧ job.lastRun =
      (s.noted? provider e).elim old.lastRun fun noted => some noted.1 := by
  obtain ⟨old, ho, hs⟩ := notes_after hn hj
  refine ⟨old, ho, ?_⟩
  have hl : job.lastRun = job.notes.lastRun := rfl
  rw [hl, hs]
  cases s.noted? provider e with
  | none => rfl
  | some noted => exact lastRun_record noted.1 noted.2 old

/-- The last run that is shown has been read off the clock. -/
theorem lastRun_instant (events : List Event) {job : Job} {shown : Int}
    (hj : (run events).jobOf provider = some job) (hl : job.lastRun = some shown) :
    shown ∈ events.filterMap Event.instant? := by
  induction events using List.reverseRecOn generalizing job with
  | nil => cases hj
  | append_singleton events e ih =>
    rw [run_snoc] at hj
    rw [List.filterMap_append]
    by_cases hs : e.Schedules provider
    · obtain ⟨plan, cadence, now, -, -, hp⟩ := after_schedules (s := run events) hs
      cases hp.symm.trans hj
      cases hl
    · obtain ⟨old, ho, hr⟩ := lastRun_after hs hj
      rw [hl] at hr
      cases hn : (run events).noted? provider e with
      | none =>
        rw [hn] at hr
        exact List.mem_append_left _ (ih ho hr.symm)
      | some noted =>
        rw [hn] at hr
        obtain rfl : shown = noted.1 := Option.some.inj hr
        rcases noted_cases hn with rfl | ⟨_, firing, -, hf, -, hi⟩
        · exact List.mem_append_right _ List.mem_cons_self
        · rw [← hi]
          exact List.mem_append_left _ (firing_instant events (List.mem_of_getElem? hf))

/-- The last run that a job shows goes back exactly when a firing is completed whose tick was before
what is shown. -/
theorem lastRun_decreases_iff (ht : Timely (events ++ [e])) (hn : ¬ e.Schedules provider)
    {job job' : Job} {shown : Int} (hj : (run events).jobOf provider = some job)
    (hj' : (run (events ++ [e])).jobOf provider = some job') (hl : job.lastRun = some shown) :
    (∃ next, job'.lastRun = some next ∧ next < shown) ↔
      ∃ position result firing, e = .complete position result ∧
        (run events).firings[position]? = some firing ∧ firing.provider = provider ∧
        firing.instant < shown := by
  rw [run_snoc] at hj'
  obtain ⟨old, ho, hr⟩ := lastRun_after hn hj'
  cases hj.symm.trans ho
  constructor
  · rintro ⟨next, hl', hlt⟩
    rw [hl', hl] at hr
    cases hno : (run events).noted? provider e with
    | none =>
      rw [hno] at hr
      cases hr
      exact absurd hlt (Int.lt_irrefl _)
    | some noted =>
      rw [hno] at hr
      obtain rfl : next = noted.1 := Option.some.inj hr
      rcases noted_cases hno with rfl | ⟨position, firing, he, hf, hp, hi⟩
      · have hle := ht.le rfl (lastRun_instant events hj hl)
        omega
      · exact ⟨position, noted.2, firing, he, hf, hp, hi ▸ hlt⟩
  · rintro ⟨position, result, firing, rfl, hf, hp, hlt⟩
    rw [noted_complete hf hp] at hr
    exact ⟨firing.instant, hr, hlt⟩

theorem lastRun_stays (hn : ¬ e.Schedules provider) {job job' : Job} {shown : Int}
    (hj : (run events).jobOf provider = some job)
    (hj' : (run (events ++ [e])).jobOf provider = some job') (hl : job.lastRun = some shown) :
    ∃ next, job'.lastRun = some next := by
  rw [run_snoc] at hj'
  obtain ⟨old, ho, hr⟩ := lastRun_after hn hj'
  cases hj.symm.trans ho
  rw [hr]
  cases (run events).noted? provider e with
  | none => exact ⟨shown, hl⟩
  | some noted => exact ⟨noted.1, rfl⟩

/-- No run of a provider outside of the schedule ends while a firing of it runs. -/
def Secluded (provider : String) (events : List Event) : Prop :=
  ∀ before instant result, before ++ [.record provider instant result] <+: events →
    (run before).firingCount provider = 0

theorem Secluded.of_prefix {before : List Event} (h : Secluded provider events)
    (hp : before <+: events) : Secluded provider before :=
  fun earlier instant result he => h earlier instant result (he.trans hp)

/-- Firings that run have been started after all that is shown. -/
theorem shown_le_firing (ht : Timely events) (hu : Undisturbed provider events)
    (hs : Secluded provider events) {job : Job} {shown : Int} {firing : Firing}
    (hj : (run events).jobOf provider = some job) (hl : job.lastRun = some shown)
    (hf : firing ∈ (run events).firings) (hp : firing.provider = provider) :
    shown ≤ firing.instant := by
  induction events using List.reverseRecOn generalizing job with
  | nil => cases hj
  | append_singleton events e ih =>
    have hpre := List.prefix_append events [e]
    have hold := @ih (ht.of_prefix hpre) (hu.of_prefix hpre) (hs.of_prefix hpre)
    rw [run_snoc] at hj hf
    by_cases hsched : e.Schedules provider
    · obtain ⟨plan, cadence, now, -, -, hn⟩ := after_schedules (s := run events) hsched
      cases hn.symm.trans hj
      cases hl
    · obtain ⟨old, ho, hr⟩ := lastRun_after hsched hj
      rw [hl] at hr
      rcases firings_after hf with hm | rfl
      · cases hno : (run events).noted? provider e with
        | none =>
          rw [hno] at hr
          exact hold ho hr.symm hm
        | some noted =>
          -- Nothing is noted while a firing runs, other than by its own completion.
          rcases noted_cases hno with rfl | ⟨position, done, rfl, hd, hdp, -⟩
          · have hz := hs events noted.1 noted.2 List.prefix_rfl
            exact absurd hp (not_mem_of_firingCount hz hm)
          · have hc := firingCount_complete hd provider noted.2
            have ha := (run_apart (hu.of_prefix hpre)).alone
            rw [if_pos hdp] at hc
            have hz : ((run events).complete position noted.2).firingCount provider = 0 := by
              omega
            exact absurd hp (not_mem_of_firingCount hz hf)
      · exact ht.le rfl (lastRun_instant events ho hr.symm)

/-! ## Runs that outlive a job -/

/-- A run that ends notes its end on the job that its provider has. -/
theorem exists_of_noted {noted : Int × Except PluginError Report}
    (hno : s.noted? provider e = some noted) {job : Job} (hj : s.jobOf provider = some job) :
    ∃ job', (s.after e).jobOf provider = some job' ∧ job'.lastRun = some noted.1 := by
  have hn : ¬ e.Schedules provider := by
    rintro hs
    obtain ⟨_, _, _, rfl, -⟩ := after_schedules (s := s) hs
    cases hno
  have hc : e ≠ .cancel provider := by
    rintro rfl
    cases hno
  have hexists : ∃ job', (s.after e).jobOf provider = some job' := by
    rw [jobOf_after hn hc, hj]
    exact ⟨_, rfl⟩
  obtain ⟨job', hj'⟩ := hexists
  obtain ⟨old, ho, hr⟩ := lastRun_after hn hj'
  rw [hno] at hr
  exact ⟨job', hj', hr⟩

theorem started_lt (provider : String) (began : Nat → Nat) (events : List Event)
    {x : Firing × Nat} (hx : x ∈ (account provider began events).started) :
    x.2 < events.length := by
  induction events using List.reverseRecOn with
  | nil => cases hx
  | append_singleton events e ih =>
    rw [List.length_append]
    rw [account_snoc] at hx
    cases e with
    | tick now =>
      rcases List.mem_append.mp hx with hx | hx
      · exact Nat.lt_succ_of_lt (ih hx)
      · obtain ⟨_, -, rfl⟩ := List.mem_map.mp hx
        exact Nat.lt_succ_of_le (Nat.le_of_eq (account_count provider began events))
    | complete position result => exact Nat.lt_succ_of_lt (ih (List.mem_of_mem_eraseIdx hx))
    | schedule | cancel | enable | disable | record => exact Nat.lt_succ_of_lt (ih hx)

/-- A job shows a run as its only one, and that run is older than the job. -/
def Stale (provider : String) (began : Nat → Nat) (events : List Event) (instant : Int)
    (result : Except PluginError Report) : Prop :=
  ∃ job x, (run events).jobOf provider = some job ∧ job.notes = notesOf [x] ∧
    x.instant = instant ∧ x.result = result ∧ x.began < (account provider began events).since

section Outlived

variable {before : List Event} {plan : Plan} {cadence : Cadence}

/-- A run that ends right after its provider has been scheduled is all that the new job shows. -/
theorem stale_of_noted (hc : Cadence.ofPlan plan = .ok cadence) (now : Int)
    {noted : Int × Except PluginError Report}
    (hno : (run (before ++ [.schedule provider plan now])).noted? provider e = some noted)
    (hb : (account provider began (before ++ [.schedule provider plan now])).beganOf began e ≤
      before.length) :
    Stale provider began (before ++ [.schedule provider plan now, e]) noted.1 noted.2 := by
  have hs : Event.Schedules provider (.schedule provider plan now) := ⟨rfl, cadence, hc⟩
  have hn : ¬ e.Schedules provider := by
    intro he
    obtain ⟨_, _, _, rfl, -⟩ := after_schedules (s := empty) he
    cases hno
  obtain ⟨_, _, _, -, -, hj⟩ := after_schedules (s := run before) hs
  rw [← run_snoc] at hj
  obtain ⟨job, hj, -⟩ := exists_of_noted hno hj
  rw [← run_snoc, ← List.append_cons] at hj
  have he : (account provider began (before ++ [.schedule provider plan now, e])).endings =
      [⟨(account provider began (before ++ [.schedule provider plan now])).beganOf began e,
        noted.1, noted.2⟩] := by
    rw [List.append_cons, account_snoc, Account.after, hno]
    refine (if_neg hn).trans ?_
    rw [account_snoc, Account.after]
    dsimp only
    rw [if_pos hs]
    rfl
  have hsince : (account provider began (before ++ [.schedule provider plan now, e])).since =
      before.length + 1 := by
    rw [List.append_cons, account_snoc]
    refine (if_neg hn).trans ?_
    rw [account_snoc]
    refine (if_pos hs).trans ?_
    rw [account_count]
  refine ⟨job, _, hj, he ▸ run_notes provider began _ hj, rfl, rfl, ?_⟩
  rw [hsince]
  exact Nat.lt_succ_of_le hb

theorem stale_firing (hc : Cadence.ofPlan plan = .ok cadence) (now : Int) {position : Nat}
    {firing : Firing} (hf : (run before).firings[position]? = some firing)
    (hp : firing.provider = provider) (result : Except PluginError Report) :
    Stale provider began (before ++ [.schedule provider plan now, .complete position result])
      firing.instant result := by
  have hfirings : (run (before ++ [.schedule provider plan now])).firings =
      (run before).firings := by
    rw [run_snoc, after, schedule_ok hc]
  refine stale_of_noted hc now (noted_complete (hfirings ▸ hf) hp result) ?_
  have hstarted : (account provider began (before ++ [.schedule provider plan now])).started =
      (account provider began before).started := by
    rw [account_snoc]
    rfl
  rw [← account_firings provider began, List.getElem?_map] at hf
  obtain ⟨x, hx, -⟩ := Option.map_eq_some_iff.mp hf
  rw [Account.beganOf, hstarted, hx]
  exact Nat.le_of_lt (started_lt provider began before (List.mem_of_getElem? hx))

theorem stale_outside (hc : Cadence.ofPlan plan = .ok cadence) (now : Int)
    (hb : began (before.length + 1) ≤ before.length) (instant : Int)
    (result : Except PluginError Report) :
    Stale provider began (before ++ [.schedule provider plan now, .record provider instant result])
      instant result := by
  have hno : (run (before ++ [.schedule provider plan now])).noted? provider
      (.record provider instant result) = some (instant, result) := if_pos rfl
  refine stale_of_noted hc now hno ?_
  change began (account provider began (before ++ [.schedule provider plan now])).count ≤ _
  rw [account_count, List.length_append]
  exact hb

/-- A run outside of the schedule that ends during a firing is shown with its end, and then the firing
with its start. -/
theorem lastRun_goes_back {job : Job} (hj : (run before).jobOf provider = some job)
    {position : Nat} {firing : Firing} (hf : (run before).firings[position]? = some firing)
    (hp : firing.provider = provider) (instant : Int) (result result' : Except PluginError Report) :
    ∃ job₁ job₂,
      (run (before ++ [.record provider instant result])).jobOf provider = some job₁ ∧
      (run (before ++ [.record provider instant result] ++ [.complete position result'])).jobOf
        provider = some job₂ ∧
      job₁.lastRun = some instant ∧ job₂.lastRun = some firing.instant := by
  have hno : (run before).noted? provider (.record provider instant result) =
      some (instant, result) := if_pos rfl
  obtain ⟨job₁, hj₁, hl₁⟩ := exists_of_noted hno hj
  have hf₁ : ((run before).after (.record provider instant result)).firings[position]? =
      some firing := by
    rw [firings_kept id, hf]
  obtain ⟨job₂, hj₂, hl₂⟩ := exists_of_noted (noted_complete hf₁ hp result') hj₁
  exact ⟨job₁, job₂, by rw [run_snoc]; exact hj₁, by rw [run_snoc, run_snoc]; exact hj₂, hl₁, hl₂⟩

end Outlived

/-- What a job shows is what runs of its provider have ended in since it was put in place. None of
these is older than the job if the provider is only scheduled when no run of it is under way; one
that is under way then is shown by the new job, whether the clock has started it or not. While a job
stays in place its last run is not taken away, and it goes back exactly when a firing is completed
whose tick was before it: never if no other run ends during a firing, and always if one does, later
than at the tick. -/
theorem notes_accounted (provider : String) (began : Nat → Nat) :
    (∀ events job, (run events).jobOf provider = some job →
      job.notes = notesOf (account provider began events).endings) ∧
    (∀ events, Calm provider began events → ∀ x ∈ (account provider began events).endings,
      (account provider began events).since ≤ x.began) ∧
    (∀ before plan cadence now position firing result, Cadence.ofPlan plan = .ok cadence →
      (run before).firings[position]? = some firing → firing.provider = provider →
      Stale provider began (before ++ [.schedule provider plan now, .complete position result])
        firing.instant result) ∧
    (∀ (before : List Event) plan cadence now instant result, Cadence.ofPlan plan = .ok cadence →
      began (before.length + 1) ≤ before.length →
      Stale provider began
        (before ++ [.schedule provider plan now, .record provider instant result])
        instant result) ∧
    (∀ events e job job' shown, Timely (events ++ [e]) → ¬ e.Schedules provider →
      (run events).jobOf provider = some job → (run (events ++ [e])).jobOf provider = some job' →
      job.lastRun = some shown →
      ∃ next, job'.lastRun = some next ∧ (next < shown ↔
        ∃ position result firing, e = .complete position result ∧
          (run events).firings[position]? = some firing ∧ firing.provider = provider ∧
          firing.instant < shown)) ∧
    (∀ events, Timely events → Undisturbed provider events → Secluded provider events →
      ∀ before e job job' shown, before ++ [e] <+: events → ¬ e.Schedules provider →
      (run before).jobOf provider = some job → (run (before ++ [e])).jobOf provider = some job' →
      job.lastRun = some shown → ∃ next, job'.lastRun = some next ∧ shown ≤ next) ∧
    ∀ before job position firing instant result result',
      (run before).jobOf provider = some job → (run before).firings[position]? = some firing →
      firing.provider = provider → ∃ job₁ job₂,
        (run (before ++ [.record provider instant result])).jobOf provider = some job₁ ∧
        (run (before ++ [.record provider instant result] ++ [.complete position result'])).jobOf
          provider = some job₂ ∧
        job₁.lastRun = some instant ∧ job₂.lastRun = some firing.instant := by
  have hgoes : ∀ events e job job' shown, Timely (events ++ [e]) → ¬ e.Schedules provider →
      (run events).jobOf provider = some job → (run (events ++ [e])).jobOf provider = some job' →
      job.lastRun = some shown → ∃ next, job'.lastRun = some next ∧ (next < shown ↔
        ∃ position result firing, e = .complete position result ∧
          (run events).firings[position]? = some firing ∧ firing.provider = provider ∧
          firing.instant < shown) := by
    intro events e job job' shown ht hn hj hj' hl
    obtain ⟨next, hnext⟩ := lastRun_stays hn hj hj' hl
    refine ⟨next, hnext, Iff.trans ⟨fun hlt => ⟨next, hnext, hlt⟩, ?_⟩
      (lastRun_decreases_iff ht hn hj hj' hl)⟩
    rintro ⟨_, he, hlt⟩
    cases hnext.symm.trans he
    exact hlt
  refine ⟨fun events job => run_notes provider began events,
    fun events hc x hx => since_le_endings hc hx, ?_, ?_, hgoes, ?_, ?_⟩
  · intro before plan cadence now position firing result hc hf hp
    exact stale_firing hc now hf hp result
  · intro before plan cadence now instant result hc hb
    exact stale_outside hc now hb instant result
  · intro events ht hu hs before e job job' shown hp hn hj hj' hl
    have hb : before <+: events := (List.prefix_append before [e]).trans hp
    obtain ⟨next, hnext, hiff⟩ := hgoes before e job job' shown (ht.of_prefix hp) hn hj hj' hl
    refine ⟨next, hnext, Int.not_lt.mp fun hlt => ?_⟩
    obtain ⟨_, _, firing, -, hf, hfp, hback⟩ := hiff.mp hlt
    have hle := shown_le_firing (ht.of_prefix hb) (hu.of_prefix hb) (hs.of_prefix hb) hj hl
      (List.mem_of_getElem? hf) hfp
    omega
  · intro before job position firing instant result result' hj hf hp
    exact lastRun_goes_back hj hf hp instant result result'

def firingOnly : List Event := [.schedule "a" hourly 0, .tick 0]

/-- A run outside of the schedule that ends. -/
def outsideEnd : Event := .record "a" 5 (.ok default)

/-- A firing, and a run outside of the schedule after it. -/
def inTurn : List Event := firingOnly ++ [.complete 0 (.ok default)] ++ [outsideEnd]

/-- The run outside of the schedule starts after three events, and any other before all. -/
def beganInTurn (n : Nat) : Nat := if n = 3 then 3 else 0

theorem snoc_prefix {before : List Event} (h : before ++ [e] <+: events) :
    before = events.take before.length ∧ events[before.length]? = some e := by
  obtain ⟨rest, rfl⟩ := h
  rw [List.append_assoc]
  refine ⟨List.take_left.symm, ?_⟩
  rw [List.getElem?_append_right (Nat.le_refl _), Nat.sub_self]
  rfl

theorem inTurn_calm : Calm "a" beganInTurn inTurn := by
  constructor
  · intro before e hp hs
    obtain ⟨hb, he⟩ := snoc_prefix hp
    obtain ⟨_, _, _, rfl, -⟩ := after_schedules (s := empty) hs
    rcases hn : before.length with _ | _ | _ | _ | n <;> rw [hn] at he hb
    · rw [hb]
      rfl
    all_goals cases he
  · intro before instant result hp earlier e he hle
    obtain ⟨hb, hr⟩ := snoc_prefix hp
    rcases hn : before.length with _ | _ | _ | _ | n <;> rw [hn] at hr hb hle
    case succ.succ.succ.zero =>
      have hl := he.length_le
      rw [List.length_append, hn] at hl
      exact absurd (Nat.lt_of_le_of_lt hle hl) (Nat.lt_irrefl 3)
    all_goals cases hr

theorem inTurn_secluded : Secluded "a" inTurn := by
  intro before instant result hp
  obtain ⟨hb, he⟩ := snoc_prefix hp
  rcases hn : before.length with _ | _ | _ | _ | n <;> rw [hn] at he hb
  case succ.succ.succ.zero =>
    rw [hb]
    decide +kernel
  all_goals cases he

/-- Runs that come in turn are shown in turn. A firing that runs while its provider is scheduled anew
is shown by the new job, a run outside of the schedule too, and one that ends during a firing is
taken back by it. -/
theorem notes_accounted_hourly :
    Calm "a" beganInTurn inTurn ∧ Timely inTurn ∧ Secluded "a" inTurn ∧
    (∀ x ∈ (account "a" beganInTurn inTurn).endings,
      (account "a" beganInTurn inTurn).since ≤ x.began) ∧
    (∃ job job' next,
      (run (firingOnly ++ [.complete 0 (.ok default)])).jobOf "a" = some job ∧
      (run inTurn).jobOf "a" = some job' ∧ job.lastRun = some 0 ∧ job'.lastRun = some next ∧
      0 ≤ next) ∧
    Stale "a" beganInTurn (firingOnly ++ [.schedule "a" hourly 5, .complete 0 (.ok default)]) 0
      (.ok default) ∧
    Stale "a" beganInTurn [.schedule "a" hourly 5, outsideEnd] 5 (.ok default) ∧
    ∃ job₁ job₂, (run (firingOnly ++ [outsideEnd])).jobOf "a" = some job₁ ∧
      (run (firingOnly ++ [outsideEnd] ++ [.complete 0 (.ok default)])).jobOf "a" = some job₂ ∧
      job₁.lastRun = some 5 ∧ job₂.lastRun = some 0 := by
  have hplan : Cadence.ofPlan hourly = .ok (.every 3600) := rfl
  have ht : Timely inTurn := by
    rw [Timely]
    decide +kernel
  have hrunning : ∃ firing, (run firingOnly).firings[0]? = some firing ∧ firing.provider = "a" ∧
      firing.instant = 0 := by
    have hmap : (run firingOnly).firings[0]?.map (fun firing => (firing.provider, firing.instant)) =
        some ("a", 0) := by
      decide +kernel
    obtain ⟨firing, hf, he⟩ := Option.map_eq_some_iff.mp hmap
    exact ⟨firing, hf, congrArg Prod.fst he, congrArg Prod.snd he⟩
  have hjob : ∃ job, (run firingOnly).jobOf "a" = some job := ⟨_, rfl⟩
  have hfirst : ((run (firingOnly ++ [.complete 0 (.ok default)])).jobOf "a").map Job.lastRun =
      some (some 0) := by
    decide +kernel
  have hsecond : ((run inTurn).jobOf "a").isSome := by decide +kernel
  obtain ⟨firing, hf, hp, hi⟩ := hrunning
  obtain ⟨-, hcalm, hfiring, houtside, -, hstays, hback⟩ := notes_accounted "a" beganInTurn
  refine ⟨inTurn_calm, ht, inTurn_secluded, hcalm _ inTurn_calm, ?_, ?_, ?_, ?_⟩
  · obtain ⟨job, hj, hl⟩ := Option.map_eq_some_iff.mp hfirst
    obtain ⟨job', hj'⟩ := Option.isSome_iff_exists.mp hsecond
    obtain ⟨next, hn, hle⟩ := hstays inTurn ht inTurn_calm.firings inTurn_secluded _ outsideEnd
      job job' 0 List.prefix_rfl id hj hj' hl
    exact ⟨job, job', next, hj, hj', hl, hn, hle⟩
  · exact hi ▸ hfiring firingOnly hourly _ 5 0 firing (.ok default) hplan hf hp
  · exact houtside [] hourly _ 5 5 _ hplan (Nat.le_refl 0)
  · obtain ⟨job, hj⟩ := hjob
    exact hi ▸ hback firingOnly job 0 firing 5 (.ok default) (.ok default) hj hf hp

end Scheduler

end TrieFeed.Schedule
