import TrieFeed.Proofs.Plugin.Configuration
/-!
# Reloads that are abandoned

A reload waits for the file of its script and for engines, and may be abandoned wherever it waits.
It marks the context before it waits for the first time and unmarks it after the last, so a context
is left marked by every reload that is abandoned, and by no other.
-/
namespace TrieFeed

namespace Context

/-! ## A reload step by step -/

/-- What a reload waits for. -/
inductive Wait where
  | reading
  | starting (source : String)
  | loading (source : String) (next : Generation)
  | calling (next : Generation) (config : Record)
  | discarding (next : Generation) (e : PluginError)
  | closing (old : Generation)

/-- A reload that waits. -/
structure Underway where
  config : Option Record
  /-- The phase that the context was in. -/
  origin : Phase
  context : Context
  wait : Wait

/-- Where a step of a reload ends. -/
inductive Progress where
  | waits (u : Underway)
  | ends (result : Except PluginError Unit) (c : Context)

namespace Underway

def begin (config : Option Record) (c : Context) : Underway :=
  ⟨config, c.phase, { c with phase := .reloading }, .reading⟩

def fail (u : Underway) (e : PluginError) : Progress :=
  .ends (.error e) { u.context with phase := u.origin }

def discard (u : Underway) (next : Generation) (e : PluginError) : Progress :=
  .waits { u with wait := .discarding next e }

/-- Puts the next generation in place, before the one that was there is closed. -/
def install (u : Underway) (next : Generation) : Progress :=
  let context := { u.context with generation := some next }
  match u.context.generation with
  | none => .ends (.ok ()) { context with phase := reloadedPhase u.config }
  | some old => .waits { u with context, wait := .closing old }

/-- Goes on with a script that has been loaded. -/
def check (u : Underway) (next : Generation) : Progress :=
  match Script.EntryPoint.required.find? fun name => !next.defines name, u.config with
  | some name, _ => u.discard next (.entryPointMissing next.provider name)
  | none, some config =>
    if next.defines Script.EntryPoint.start then .waits { u with wait := .calling next config }
    else u.install next
  | none, none => u.install next

/-- What a reload does until it waits again. -/
def resume (u : Underway) (h : Host) : Progress × Host :=
  match u.wait with
  | .reading =>
    match u.context.readScript h with
    | .ok source => (.waits { u with wait := .starting source }, h)
    | .error e => (u.fail e, h)
  | .starting source =>
    match u.context.createGeneration h with
    | (.ok next, h) => (.waits { u with wait := .loading source next }, h)
    | (.error e, h) => (u.fail e, h)
  | .loading source next =>
    match next.load source u.context.scriptPath.lastName h with
    | (.ok (), next, h) => (u.check next, h)
    | (.error e, next, h) => (u.discard next e, h)
  | .calling next config =>
    match next.call Script.EntryPoint.start [.map config] h with
    | (.ok _, next, h) => (u.install next, h)
    | (.error e, next, h) => (u.discard next e, h)
  | .discarding next e => (u.fail e, next.stop h)
  | .closing old => (.ends (.ok ()) { u.context with phase := reloadedPhase u.config }, old.stop h)

end Underway

/-- A reload that is resumed until it ends. -/
inductive Runs : Progress → Host → Except PluginError Unit × Context × Host → Prop where
  | ended {result c h} : Runs (.ends result c) h (result, c, h)
  | resumed {u h p h' out} (hr : u.resume h = (p, h')) (rest : Runs p h' out) :
      Runs (.waits u) h out

/-- A reload that waits, whatever hosts it has met. -/
inductive Underway.Reached (config : Option Record) (c : Context) : Underway → Prop where
  | began : Reached config c (.begin config c)
  | resumed {u v h h'} (before : Reached config c u) (hr : u.resume h = (.waits v, h')) :
      Reached config c v

/-- The context is marked, and its generation has been replaced only if that is now being closed. -/
inductive Underway.Marked (config : Option Record) (c : Context) : Underway → Prop where
  | kept {wait} (hw : ∀ old, wait ≠ .closing old) :
      Marked config c ⟨config, c.phase, { c with phase := .reloading }, wait⟩
  | replaced {old} (next : Generation) (ho : c.generation = some old) :
      Marked config c ⟨config, c.phase,
        { c with phase := .reloading, generation := some next }, .closing old⟩

variable {u v : Underway} {config : Option Record} {c : Context} {h h' : Host}

/-- What comes of a reload whose next generation has been prepared. -/
def concluded (u : Underway) : Except PluginError Unit × Generation × Host →
    Except PluginError Unit × Context × Host
  | (.ok (), next, h) => (.ok (),
      { u.context with generation := some next, phase := reloadedPhase u.config },
      u.context.generation.elim h fun g => g.stop h)
  | (.error e, next, h) => (.error e, { u.context with phase := u.origin }, next.stop h)

theorem discard_runs (u : Underway) (next : Generation) (e : PluginError) (h : Host) :
    Runs (u.discard next e) h (concluded u (.error e, next, h)) :=
  .resumed rfl .ended

theorem install_runs (u : Underway) (next : Generation) (h : Host) :
    Runs (u.install next) h (concluded u (.ok (), next, h)) := by
  rw [Underway.install, concluded]
  cases u.context.generation with
  | none => exact .ended
  | some old => exact .resumed rfl .ended

/-- A script that has been loaded still has to be complete and to take its configuration. -/
theorem check_runs (u : Underway) (next : Generation) (h : Host) :
    Runs (u.check next) h (concluded u
      (match Script.EntryPoint.required.find? fun name => !next.defines name, u.config with
      | some name, _ => (.error (.entryPointMissing next.provider name), next, h)
      | none, some config => next.start config h
      | none, none => (.ok (), next, h))) := by
  rw [Underway.check]
  cases Script.EntryPoint.required.find? fun name => !next.defines name with
  | some name => exact discard_runs u next _ h
  | none =>
    cases hc : u.config with
    | none => exact install_runs u next h
    | some config =>
      dsimp only
      rw [Generation.start, ← hc]
      split
      · let calling : Underway := { u with wait := .calling next config }
        have hresume : calling.resume h =
            match next.call Script.EntryPoint.start [.map config] h with
            | (.ok _, next, h) => (u.install next, h)
            | (.error e, next, h) => (u.discard next e, h) := rfl
        rcases hr : next.call Script.EntryPoint.start [.map config] h with ⟨e | v, after, h'⟩
        · rw [hr] at hresume
          exact .resumed hresume (discard_runs u after e h')
        · rw [hr] at hresume
          exact .resumed hresume (install_runs u after h')
      · exact install_runs u next h

theorem loading_runs (u : Underway) (source : String) (next : Generation) (h : Host) :
    Runs (.waits { u with wait := .loading source next }) h
      (concluded u (next.prepare source u.context.scriptPath.lastName u.config h)) := by
  let loading : Underway := { u with wait := .loading source next }
  have hresume : loading.resume h =
      match next.load source u.context.scriptPath.lastName h with
      | (.ok (), next, h) => (u.check next, h)
      | (.error e, next, h) => (u.discard next e, h) := rfl
  rw [Generation.prepare]
  rcases hl : next.load source u.context.scriptPath.lastName h with ⟨e | v, after, h'⟩
  · rw [hl] at hresume
    exact .resumed hresume (discard_runs u after e h')
  · rw [hl] at hresume
    exact .resumed hresume (check_runs u after h')

/-- A reload that goes on wherever it waits is a reload. -/
theorem begin_runs (config : Option Record) (c : Context) (h : Host) :
    Runs (.waits (.begin config c)) h (c.reload config h) := by
  let reading : Underway := .begin config c
  have hresume : reading.resume h =
      match c.readScript h with
      | .ok source => (.waits { reading with wait := .starting source }, h)
      | .error e => (reading.fail e, h) := rfl
  cases hs : c.readScript h with
  | error e =>
    rw [hs] at hresume
    rw [reload_error (stage_unread hs)]
    exact .resumed hresume .ended
  | ok source =>
    rw [hs] at hresume
    refine .resumed hresume ?_
    let starting : Underway := { reading with wait := .starting source }
    have hresume : starting.resume h =
        match c.createGeneration h with
        | (.ok next, h) => (.waits { reading with wait := .loading source next }, h)
        | (.error e, h) => (reading.fail e, h) := rfl
    rcases hg : c.createGeneration h with ⟨e | next, host⟩
    · rw [hg] at hresume
      rw [reload_error (stage_uncreated hs hg)]
      exact .resumed hresume .ended
    · rw [hg] at hresume
      refine .resumed hresume ?_
      have hruns := loading_runs reading source next host
      have hprepare : next.prepare source reading.context.scriptPath.lastName reading.config host =
          next.prepare source c.scriptPath.lastName config host := rfl
      rw [hprepare] at hruns
      rcases hp : next.prepare source c.scriptPath.lastName config host with ⟨e | v, after, host'⟩
      · rw [hp] at hruns
        rw [reload_error (stage_unprepared hs hg hp)]
        exact hruns
      · rw [hp] at hruns
        rw [reload_ok (stage_prepared hs hg hp)]
        exact hruns

/-! ## What a reload leaves where it waits -/

theorem Underway.Marked.phase (hm : u.Marked config c) : u.context.phase = .reloading := by
  cases hm <;> rfl

theorem marked_of_install {wait : Wait} {next : Generation}
    (hi : Underway.install ⟨config, c.phase, { c with phase := .reloading }, wait⟩ next =
      .waits v) : v.Marked config c := by
  rw [Underway.install] at hi
  dsimp only at hi
  cases hg : c.generation with
  | none =>
    rw [hg] at hi
    cases hi
  | some old =>
    rw [hg] at hi
    cases hi
    exact .replaced next hg

theorem marked_of_check {wait : Wait} {next : Generation}
    (hc : Underway.check ⟨config, c.phase, { c with phase := .reloading }, wait⟩ next = .waits v) :
    v.Marked config c := by
  rw [Underway.check] at hc
  split at hc
  · cases hc
    exact .kept fun old => Wait.noConfusion
  · split at hc
    · cases hc
      exact .kept fun old => Wait.noConfusion
    · exact marked_of_install hc
  · exact marked_of_install hc

/-- A step of a reload leaves the context marked if it is not the last one. -/
theorem Underway.Marked.resume (hm : u.Marked config c) (hr : u.resume h = (.waits v, h')) :
    v.Marked config c := by
  rw [Underway.resume] at hr
  cases hm with
  | replaced next ho => cases hr
  | @kept wait hw =>
    cases wait with
    | reading =>
      dsimp only at hr
      split at hr
      · cases hr
        exact .kept fun old => Wait.noConfusion
      · cases hr
    | starting source =>
      dsimp only at hr
      split at hr
      · cases hr
        exact .kept fun old => Wait.noConfusion
      · cases hr
    | loading source next =>
      dsimp only at hr
      split at hr
      · exact marked_of_check (Prod.mk.inj hr).1
      · cases hr
        exact .kept fun old => Wait.noConfusion
    | calling next config =>
      dsimp only at hr
      split at hr
      · exact marked_of_install (Prod.mk.inj hr).1
      · cases hr
        exact .kept fun old => Wait.noConfusion
    | discarding next e => cases hr
    | closing old => exact absurd rfl (hw old)

theorem Underway.Reached.marked (hr : u.Reached config c) : u.Marked config c := by
  induction hr with
  | began => exact .kept fun old => Wait.noConfusion
  | resumed _ hr ih => exact ih.resume hr

end Context

namespace Plugin

/-! ## Plugins with abandoned reloads -/

inductive Event where
  | request (r : Request) (worked : Bool)
  | abandoned

/-- Whether a marked context is unmarked by the event: data leaves it alone, and a reload that fails
goes back to the phase it came from. -/
def Event.unmarks : Event → Bool
  | .request (.data _) _ => false
  | .request .reload worked => worked
  | .request _ _ => true
  | .abandoned => false

/-- A reload was abandoned, and nothing has unmarked the context since. -/
def Stranded (events : List Event) : Prop :=
  ∃ before after, events = before ++ .abandoned :: after ∧ ∀ e ∈ after, e.unmarks = false

/-- A plugin as requests and abandoned reloads can leave it. -/
inductive Attained : Plugin → List Event → Prop where
  | opened {manifest directory h p h'} (ho : ofManifest manifest directory h = (.ok p, h')) :
      Attained p []
  | request {p events} (before : Attained p events) (r : Request) (h : Host) :
      Attained (perform r p h).2.1 (events ++ [.request r (perform r p h).1.isOk])
  | abandoned {p events} {u : Context.Underway} (before : Attained p events)
      (hu : u.Reached p.reloadConfig p.context) :
      Attained { p with context := u.context } (events ++ [.abandoned])

variable {p : Plugin} {events : List Event}

theorem not_stranded_nil : ¬ Stranded [] := by
  rintro ⟨before, after, he, -⟩
  exact List.append_ne_nil_of_right_ne_nil before (List.cons_ne_nil _ after) he.symm

theorem stranded_snoc {e : Event} :
    Stranded (events ++ [e]) ↔ e = .abandoned ∨ Stranded events ∧ e.unmarks = false := by
  constructor
  · rintro ⟨before, after, he, hu⟩
    rcases List.eq_nil_or_concat after with rfl | ⟨after, last, rfl⟩
    · exact .inl (List.singleton_injective (List.append_inj' he rfl).2)
    · rw [List.concat_eq_append, ← List.cons_append, ← List.append_assoc] at he
      obtain ⟨rfl, hl⟩ := List.append_inj' he rfl
      cases hl
      rw [List.concat_eq_append] at hu
      obtain ⟨ha, hl⟩ := List.forall_mem_append.mp hu
      exact .inr ⟨⟨before, after, rfl, ha⟩, hl _ List.mem_cons_self⟩
  · rintro (rfl | ⟨⟨before, after, rfl, hu⟩, he⟩)
    · exact ⟨events, [], rfl, fun e he => nomatch he⟩
    · refine ⟨before, after ++ [e], by rw [List.append_assoc, List.cons_append], ?_⟩
      exact List.forall_mem_append.mpr ⟨hu, List.forall_mem_singleton.mpr he⟩

theorem data_phase (d : DataRequest) (p : Plugin) (h : Host) :
    (d.perform p h).2.1.context.phase = p.context.phase := by
  cases hi : p.isInitialized with
  | false => rw [data_uninitialized hi]
  | true =>
    rw [data_initialized hi]
    exact (Context.call_keeps d.entryPoint d.args p.context h).1

theorem keeping_phase (config : Record) (work : Step Unit) (p : Plugin) (h : Host) :
    (keeping config work p h).2.1.context.phase = (work p h).2.1.context.phase := by
  rw [keeping_eq]
  rcases work p h with ⟨_ | _, after, h'⟩ <;> rfl

theorem start_phase (config : Record) (p : Plugin) (h : Host) :
    (p.start config h).2.1.context.phase ≠ .reloading := by
  rw [start, keeping_phase]
  change (p.context.start config h).2.1.phase ≠ .reloading
  cases hd : p.context.defines Script.EntryPoint.start with
  | false =>
    rw [Context.start_undefined hd]
    exact Phase.noConfusion
  | true =>
    rw [Context.start_defined hd]
    rcases p.context.call Script.EntryPoint.start [.map config] h with ⟨_ | _, c, h'⟩
    · exact Phase.noConfusion
    · exact Phase.noConfusion

theorem reconfigure_phase (config : Record) (p : Plugin) (h : Host) :
    (p.reconfigure config h).2.1.context.phase ≠ .reloading := by
  rw [reconfigure]
  cases hr : p.isInitialized && p.context.defines Script.EntryPoint.reconfigure with
  | false => exact start_phase config p h
  | true =>
    have hi : p.context.phase = .initialized := beq_iff_eq.mp (Bool.and_eq_true_iff.mp hr).1
    rw [keeping_phase, if_pos rfl]
    change (p.context.call Script.EntryPoint.reconfigure [.map config] h).2.1.phase ≠ .reloading
    rw [(Context.call_keeps _ _ p.context h).1, hi]
    exact Phase.noConfusion

theorem reloadedPhase_ne (config : Option Record) :
    Context.reloadedPhase config ≠ .reloading := by
  cases config <;> exact Phase.noConfusion

/-- A request unmarks the context or leaves its mark alone. -/
theorem request_phase (r : Request) (p : Plugin) (h : Host) :
    (perform r p h).2.1.context.phase = .reloading ↔ p.context.phase = .reloading ∧
      (Event.request r (perform r p h).1.isOk).unmarks = false := by
  have hunmarks {phase : Phase} (hp : phase ≠ .reloading) :
      phase = .reloading ↔ p.context.phase = .reloading ∧ true = false :=
    iff_of_false hp fun hf => Bool.noConfusion hf.2
  cases r with
  | start config => exact hunmarks (start_phase config p h)
  | reconfigure config => exact hunmarks (reconfigure_phase config p h)
  | close =>
    have hc : (p.close h).1.context.phase = .closed := by
      change (p.context.close h).1.phase = .closed
      rw [Context.close_generation]
    exact hunmarks (hc ▸ Phase.noConfusion)
  | data d =>
    change (d.perform p h).2.1.context.phase = .reloading ↔ _ ∧ false = false
    rw [data_phase, and_iff_left rfl]
  | reload =>
    change (p.reload h).2.1.context.phase = .reloading ↔ _ ∧ (p.reload h).1.isOk = false
    rcases reload_stage p h with ⟨e, host, hr⟩ | ⟨next, host, host', -, hr⟩
    · rw [hr]
      exact (and_iff_left rfl).symm
    · rw [hr]
      exact hunmarks (reloadedPhase_ne p.reloadConfig)

theorem ofManifest_phase {manifest : Manifest} {directory : Path} {h h' : Host}
    (ho : ofManifest manifest directory h = (.ok p, h')) : p.context.phase = .loaded := by
  unfold ofManifest at ho
  split at ho
  · rename_i hc
    cases ho
    exact (Context.createLoaded_lived hc).1
  · cases ho

theorem Attained.phase (ha : Attained p events) :
    p.context.phase = .reloading ↔ Stranded events := by
  induction ha with
  | opened ho =>
    refine iff_of_false ?_ not_stranded_nil
    rw [ofManifest_phase ho]
    exact Phase.noConfusion
  | request before r h ih =>
    rw [request_phase, stranded_snoc, ih]
    exact (or_iff_right fun he => Event.noConfusion he).symm
  | abandoned before hu ih =>
    rw [stranded_snoc]
    exact iff_of_true hu.marked.phase (.inl rfl)

/-- A plugin is in the midst of a reload just if one was abandoned and since then nothing was asked
but data and reloads that did not work; it then refuses all data. A reload that is not abandoned is
the one that runs at once. One that is abandoned always leaves the context marked, and has put the
next generation in place if it was closing the one before. -/
theorem reloading_iff_stranded (ha : Attained p events) :
    (p.context.phase = .reloading ↔ Stranded events) ∧
    (p.context.phase = .reloading → p.readiness = .notConfigured ∧
      ∀ (d : DataRequest) h, d.perform p h = (.error (d.refusal p), p, h)) ∧
    (∀ h, Context.Runs (.waits (.begin p.reloadConfig p.context)) h
      (p.context.reload p.reloadConfig h)) ∧
    ∀ u : Context.Underway, u.Reached p.reloadConfig p.context → u.context.phase = .reloading ∧
      (u.context = { p.context with phase := .reloading } ∨
        ∃ old next, u.wait = .closing old ∧ p.context.generation = some old ∧
          u.context = { p.context with phase := .reloading, generation := some next }) := by
  refine ⟨ha.phase, fun hp => ⟨?_, ?_⟩, Context.begin_runs _ _, fun u hu => ⟨hu.marked.phase, ?_⟩⟩
  · rw [readiness, hp]
  · refine data_uninitialized ?_
    rw [isInitialized, hp]
    rfl
  · cases hu.marked with
    | kept hw => exact .inl rfl
    | replaced next ho => exact .inr ⟨_, next, rfl, ho, rfl⟩

/-- The plugin after a reload that was abandoned while it waited for the file of its script. -/
def stranded (p : Plugin) : Plugin :=
  { p with context := (Context.Underway.begin p.reloadConfig p.context).context }

theorem Attained.stranded (ha : Attained p events) :
    Attained p.stranded (events ++ [.abandoned]) := ha.abandoned .began

theorem stranded_phase (p : Plugin) : p.stranded.context.phase = .reloading := rfl

theorem stranded_generation (p : Plugin) :
    p.stranded.context.generation = p.context.generation := rfl

def startedPlugin : Plugin := (perform (.start (labelled "a")) tunablePlugin tunableHost).2.1

/-- A plugin that was available is not any more, though its script is still in place. -/
theorem reloading_iff_stranded_started :
    startedPlugin.readiness = .available ∧
    (∃ events, Attained startedPlugin.stranded events ∧ Stranded events) ∧
    startedPlugin.stranded.context.generation.isSome ∧
    startedPlugin.stranded.readiness = .notConfigured ∧
    ∀ (d : DataRequest) h, d.perform startedPlugin.stranded h =
      (.error (d.refusal startedPlugin.stranded), startedPlugin.stranded, h) := by
  have hopened : Attained tunablePlugin [] := .opened ofManifest_tunable
  have ha := (hopened.request (.start (labelled "a")) tunableHost).stranded
  have hp := stranded_phase startedPlugin
  obtain ⟨hphase, hrefuses, -⟩ := reloading_iff_stranded ha
  obtain ⟨hready, hdata⟩ := hrefuses hp
  have hstarted : startedPlugin.readiness = .available ∧
      startedPlugin.context.generation.isSome := by
    decide +kernel
  rw [stranded_generation]
  exact ⟨hstarted.1, ⟨_, ha, hphase.mp hp⟩, hstarted.2, hready, hdata⟩

end Plugin

end TrieFeed
