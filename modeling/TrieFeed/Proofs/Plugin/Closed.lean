import TrieFeed.Proofs.Plugin.Engines
/-!
# Closed contexts

A closed context has no engine, and only a reload gives it one again. Whatever else is asked of it,
and however often, nothing of it runs.
-/
namespace TrieFeed

/-- The host as it is met later: all of it but the engines may have changed. -/
def Host.metAs (h world : Host) : Host := { world with engines := h.engines }

namespace Context

inductive Request where
  | load
  | start (config : Record)
  | call (entryPoint : String) (args : List Value)
  | reload (config : Option Record)
  | close

/-- Does what is requested, and says whether it worked. -/
def perform : Request → Step Unit
  | .load => load
  | .start config => start config
  | .call entryPoint args => fun c h =>
    match c.call entryPoint args h with
    | (result, c, h) => (result.map fun _ => (), c, h)
  | .reload config => reload config
  | .close => fun c h => (.ok (), c.close h)

/-- Requests with what came of them. -/
abbrev History := List (Request × Except PluginError Unit)

/-- Requests one after another, each on the host as it is by then. -/
inductive Course (c : Context) (h : Host) : History → Context → Host → Prop where
  | start : Course c h [] c h
  | tail {done c' h' result c'' h''} (before : Course c h done c' h') (request : Request)
      (world : Host) (hp : perform request c' (h'.metAs world) = (result, c'', h'')) :
      Course c h (done ++ [(request, result)]) c'' h''

/-- No reload has worked. -/
def Unrevived (done : History) : Prop := ∀ config, (.reload config, .ok ()) ∉ done

/-- No start was requested. -/
def Unstarted (done : History) : Prop := ∀ config result, (.start config, result) ∉ done

/-- The phase after a request to a context at rest, starts and reloads that work apart. -/
def Request.restPhase (phase : Phase) : Request → Phase
  | .load => .failed
  | .close => .closed
  | _ => phase

/-- The phase of a context that was closed before all this. -/
def restPhase (done : History) : Phase :=
  done.foldl (fun phase (request, _) => request.restPhase phase) .closed

/-- Nothing of the context runs, and the engines that do are these. -/
structure AtRest (provider : String) (engines : List String) (c : Context) (h : Host) : Prop where
  provider : c.provider = provider
  generation : c.generation = none
  engines : h.engines = engines

variable {c c' : Context} {h h' : Host} {provider : String} {engines : List String}

theorem call_none (hn : c.generation = none) (entryPoint : String) (args : List Value) (h : Host) :
    c.call entryPoint args h = (.error (.contextClosed c.provider), c, h) := by
  rw [call, hn]

/-- The script is read before it turns out that there is nothing to load it into. -/
theorem load_none (hn : c.generation = none) (h : Host) :
    c.load h = (.error (match c.readScript h with
      | .error e => e
      | .ok _ => .contextClosed c.provider), { c with phase := .failed }, h) := by
  rw [load, hn]
  cases c.readScript h <;> rfl

theorem start_none (hn : c.generation = none) (config : Record) (h : Host) :
    c.start config h = (.ok (), { c with phase := .initialized }, h) := by
  rw [start, hn]

theorem close_none (hn : c.generation = none) (h : Host) :
    c.close h = ({ c with phase := .closed }, h) := by
  rw [close, hn]

theorem reload_none (hn : c.generation = none) (config : Option Record) (h : Host) :
    (∃ e host, c.reload config h = (.error e, c, host) ∧ host.engines = h.engines) ∨
    ∃ next host, c.Renewed config h next ∧ host.engines = c.provider :: h.engines ∧
      c.reload config h =
        (.ok (), { c with phase := reloadedPhase config, generation := some next }, host) := by
  rcases stage_engines config c h with ⟨e, host, hs, he⟩ | ⟨next, host, hs, he⟩
  · exact .inl ⟨e, host, reload_error hs, he⟩
  · have hr := reload_ok hs
    rw [hn] at hr
    exact .inr ⟨next, host, renewed_of_stage hs, he, hr⟩

/-- A context at rest stays so through every request but a reload that works. -/
theorem perform_atRest (hr : AtRest provider engines c h) {request : Request}
    {result : Except PluginError Unit} (hp : perform request c h = (result, c', h'))
    (hu : ∀ config, (request, result) ≠ (.reload config, .ok ())) :
    AtRest provider engines c' h' ∧
      ((∀ config, request ≠ .start config) → c'.phase = request.restPhase c.phase) := by
  obtain ⟨hq, hn, he⟩ := hr
  cases request with
  | load =>
    rw [perform, load_none hn] at hp
    cases hp
    exact ⟨⟨hq, hn, he⟩, fun _ => rfl⟩
  | start config =>
    rw [perform, start_none hn] at hp
    cases hp
    exact ⟨⟨hq, hn, he⟩, fun hs => absurd rfl (hs config)⟩
  | call entryPoint args =>
    rw [perform] at hp
    dsimp only at hp
    rw [call_none hn] at hp
    cases hp
    exact ⟨⟨hq, hn, he⟩, fun _ => rfl⟩
  | reload config =>
    rcases reload_none hn config h with ⟨e, host, hc, hh⟩ | ⟨next, host, -, -, hc⟩
    · rw [perform, hc] at hp
      cases hp
      exact ⟨⟨hq, hn, hh.trans he⟩, fun _ => rfl⟩
    · rw [perform, hc] at hp
      cases hp
      exact absurd rfl (hu config)
  | close =>
    rw [perform] at hp
    dsimp only at hp
    rw [close_none hn] at hp
    cases hp
    exact ⟨⟨hq, hn, he⟩, fun _ => rfl⟩

theorem course_atRest (hr : AtRest provider engines c h) (hp : c.phase = .closed) {done : History}
    (hc : Course c h done c' h') (hu : Unrevived done) :
    AtRest provider engines c' h' ∧ (Unstarted done → c'.phase = restPhase done) := by
  induction hc with
  | start => exact ⟨hr, fun _ => hp⟩
  | @tail done c' h' result c'' h'' before request world hw ih =>
    have hb : Unrevived done := fun config hm => hu config (List.mem_append_left _ hm)
    obtain ⟨hr', hp'⟩ := ih hb
    -- what has become of the host in between is nothing to a context at rest
    have hm : AtRest provider engines c' (h'.metAs world) :=
      ⟨hr'.provider, hr'.generation, hr'.engines⟩
    have hl : (request, result) ∈ done ++ [(request, result)] :=
      List.mem_append_right _ List.mem_cons_self
    obtain ⟨hr'', hp''⟩ := perform_atRest hm hw fun config he => hu config (he ▸ hl)
    refine ⟨hr'', fun hs => ?_⟩
    have hbefore : c'.phase = restPhase done :=
      hp' fun config result hm => hs config result (List.mem_append_left _ hm)
    rw [hp'' fun config he => hs config result (he ▸ hl), hbefore, restPhase, restPhase,
      List.foldl_concat]

/-- Closing a context stops its engine. From then on, as long as no reload works, nothing of the
context runs and no engine is started, whatever is requested: calls and loads fail, and closing it
again only says that it is closed. A reload that fails changes nothing, and one that works is the
only way back. -/
theorem closed_at_rest (c : Context) (h : Host) :
    (c.close h).1 = { c with phase := .closed, generation := none } ∧
    ((c.close h).2.engines = c.generation.elim h.engines fun g => h.engines.erase g.provider) ∧
    ∀ done c' h', Course (c.close h).1 (c.close h).2 done c' h' → Unrevived done →
      c'.generation = none ∧ h'.engines = (c.close h).2.engines ∧
      (Unstarted done → c'.phase = restPhase done) ∧
      ∀ world,
        (∀ entryPoint args,
          c'.call entryPoint args world = (.error (.contextClosed c.provider), c', world)) ∧
        c'.load world = (.error (match c'.readScript world with
          | .error e => e
          | .ok _ => .contextClosed c.provider), { c' with phase := .failed }, world) ∧
        c'.close world = ({ c' with phase := .closed }, world) ∧
        ∀ config,
          (∃ e host, c'.reload config world = (.error e, c', host) ∧ host.engines = world.engines) ∨
          ∃ next host, c'.Renewed config world next ∧ host.engines = c.provider :: world.engines ∧
            c'.reload config world =
              (.ok (), { c' with phase := reloadedPhase config, generation := some next },
                host) := by
  have hclosed := close_generation c h
  refine ⟨hclosed, close_engines c h, fun done c' h' hc hu => ?_⟩
  have hr : AtRest c.provider (c.close h).2.engines (c.close h).1 (c.close h).2 := by
    rw [hclosed]
    exact ⟨rfl, rfl, rfl⟩
  obtain ⟨⟨hq, hn, he⟩, hp⟩ := course_atRest hr (by rw [hclosed]) hc hu
  refine ⟨hn, he, hp, fun world =>
    ⟨fun entryPoint args => ?_, ?_, close_none hn world, fun config => ?_⟩⟩
  · rw [call_none hn, hq]
  · rw [load_none hn, hq]
  · rcases reload_none hn config world with hf | ⟨next, host, hw, hh, hc⟩
    · exact .inl hf
    · exact .inr ⟨next, host, hw, hq ▸ hh, hc⟩

/-- The context of the small script before it is loaded. -/
def openContext : Context :=
  { closedContext with phase := .unloaded, generation := some freshGeneration }

theorem create_small : create "a" .javascript closedContext.scriptPath .default smallHost =
    (.ok openContext, smallHost.engineStarted "a") := by
  have hg : createGeneration ⟨"a", .javascript, closedContext.scriptPath, .default, .unloaded, none⟩
      smallHost = (.ok freshGeneration, smallHost.engineStarted "a") := createGeneration_small
  rw [create, hg]
  rfl

theorem close_small :
    openContext.close (smallHost.engineStarted "a") = (closedContext, smallHost) := rfl

/-- A load and a call of the context once it is closed. -/
def refusedHistory : History :=
  [(.load, .error (.contextClosed "a")),
    (.call Script.EntryPoint.fetch [], .error (.contextClosed "a"))]

theorem course_refused : Course closedContext smallHost refusedHistory
    { closedContext with phase := .failed } smallHost := by
  have hl : perform .load closedContext (smallHost.metAs smallHost) =
      (.error (.contextClosed "a"), { closedContext with phase := .failed }, smallHost) := by
    change closedContext.load smallHost = _
    rw [load_none rfl, readScript_small]
    rfl
  have hc : perform (.call Script.EntryPoint.fetch []) { closedContext with phase := .failed }
      (smallHost.metAs smallHost) =
      (.error (.contextClosed "a"), { closedContext with phase := .failed }, smallHost) := rfl
  exact (Course.start.tail .load smallHost hl).tail (.call Script.EntryPoint.fetch []) smallHost hc

theorem closed_at_rest_refused :
    Course (openContext.close (smallHost.engineStarted "a")).1
      (openContext.close (smallHost.engineStarted "a")).2 refusedHistory
      { closedContext with phase := .failed } smallHost ∧
    Unrevived refusedHistory ∧ Unstarted refusedHistory ∧
    smallHost.engines = (openContext.close (smallHost.engineStarted "a")).2.engines ∧
    restPhase refusedHistory = .failed := by
  have hu : Unrevived refusedHistory := by
    intro config hm
    simp [refusedHistory] at hm
  have hs : Unstarted refusedHistory := by
    intro config result hm
    simp [refusedHistory] at hm
  obtain ⟨-, he, hp, -⟩ := (closed_at_rest openContext (smallHost.engineStarted "a")).2.2
    refusedHistory _ _ course_refused hu
  exact ⟨course_refused, hu, hs, he, (hp hs).symm⟩

/-- A closed context is in another phase after a load, and runs again after a reload. -/
theorem closed_not_terminal :
    create "a" .javascript closedContext.scriptPath .default smallHost =
      (.ok openContext, smallHost.engineStarted "a") ∧
    openContext.close (smallHost.engineStarted "a") = (closedContext, smallHost) ∧
    closedContext.phase = .closed ∧
    (closedContext.load smallHost).2.1.phase = .failed ∧
    (closedContext.reload none smallHost).1 = .ok () ∧
    (closedContext.reload none smallHost).2.1.phase = .loaded ∧
    (closedContext.reload none smallHost).2.2.engines = ["a"] := by
  obtain ⟨next, host, hs⟩ := stage_small
  refine ⟨create_small, close_small, rfl, ?_, ?_, ?_, ?_⟩
  · rw [load_none rfl]
  · rw [reload_ok hs]
  · rw [reload_ok hs]
    rfl
  · rcases stage_engines none closedContext smallHost with
      ⟨e, host', hs', -⟩ | ⟨next', host', hs', he⟩
    · cases hs.symm.trans hs'
    · rw [reload_ok hs']
      exact he

end Context

end TrieFeed
