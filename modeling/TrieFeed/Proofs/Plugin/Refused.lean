import TrieFeed.Proofs.Plugin.Configuration
/-!
# Reconfigurations that fail

A reconfiguration of an initialized plugin fails only when the live script is called and that call
fails. The plugin keeps the configuration and the generation that it had. With a way of its own to
be reconfigured the script goes on to answer for data; without one the call was a start, and the
plugin is out of service until a configuration has been taken.
-/
namespace TrieFeed

namespace Plugin

variable {p q : Plugin} {g : Generation} {config : Record} {h : Host} {e : PluginError}

/-- The plugin with a live generation and a phase. -/
def settledIn (p : Plugin) (phase : Phase) (g : Generation) : Plugin :=
  { p with context := { p.context with phase, generation := some g } }

theorem isInitialized_iff : p.isInitialized ↔ p.context.phase = .initialized := beq_iff_eq

/-! ## Data that a generation answers for -/

namespace DataRequest

/-- How an answer of the script is read. -/
def read : DataRequest → Value → Except PluginError Unit
  | .fetch _, v => (recordsOf v).map fun _ => ()
  | .key _, v => (bytesOf Script.EntryPoint.key v).map fun _ => ()
  | .value _, v => (bytesOf Script.EntryPoint.value v).map fun _ => ()
  | .validate _, _ => .ok ()
  | .keyFromInput _, v => (bytesOf Script.EntryPoint.keyFromInput v).map fun _ => ()

/-- The generation after it has been asked. -/
def asked (d : DataRequest) (h : Host) (g : Generation) : Generation :=
  if g.defines d.entryPoint then (g.call d.entryPoint d.args h).2.1 else g

/-- Asking leaves nothing changed but the live generation. -/
theorem perform_plugin (hi : p.isInitialized) (hg : p.context.generation = some g)
    (d : DataRequest) (h : Host) :
    (d.perform p h).2.1 = p.settledIn .initialized (d.asked h g) := by
  have hp := isInitialized_iff.mp hi
  rw [data_initialized hi, settledIn, asked, ← hp, ← Context.defines_eq hg]
  cases hd : p.context.defines d.entryPoint with
  | false =>
    obtain ⟨e, hc⟩ := Context.call_undefined hd d.args h
    rw [hc, if_neg Bool.false_ne_true, ← hg]
  | true => rw [Context.call_eq hg hd, if_pos rfl]

theorem reading_discard {α β : Type} (read : α → Except PluginError β) (work : Step α) (p : Plugin)
    (h : Host) : reading (fun _ => .ok ()) (reading read work) p h =
      reading (fun answer => (read answer).map fun _ => ()) work p h := by
  rw [reading, reading, reading]
  rcases work p h with ⟨e | answer, after⟩
  · rfl
  · change ((read answer).bind _, after) = ((read answer).map _, after)
    cases read answer <;> rfl

/-- Asking for data comes down to a call when the script has the entry point. -/
theorem perform_eq_reading (hi : p.isInitialized) {d : DataRequest}
    (hd : p.context.defines d.entryPoint) (h : Host) :
    d.perform p h = reading d.read (callData d.entryPoint d.args) p h := by
  cases d with
  | fetch config =>
    exact reading_discard recordsOf (callData Script.EntryPoint.fetch [.map config]) p h
  | key record =>
    exact reading_discard (bytesOf Script.EntryPoint.key)
      (callData Script.EntryPoint.key [.map record]) p h
  | value record =>
    exact reading_discard (bytesOf Script.EntryPoint.value)
      (callData Script.EntryPoint.value [.map record]) p h
  | validate record =>
    have hv : p.validate record h = reading (.ok ∘ Verdict.ofValue)
        (callData Script.EntryPoint.validate [.map record]) p h := by
      rw [Plugin.validate, whenInitialized_of hi, reading, reading, callData, whenInitialized_of hi]
      exact if_pos hd
    have hr := reading_discard (.ok ∘ Verdict.ofValue)
      (callData Script.EntryPoint.validate [.map record]) p h
    rw [reading, ← hv] at hr
    exact hr
  | keyFromInput input =>
    have hk : p.keyFromInput input h =
        callBytes Script.EntryPoint.keyFromInput (.text input) p h := if_pos hd
    have hr := reading_discard (bytesOf Script.EntryPoint.keyFromInput)
      (callData Script.EntryPoint.keyFromInput [.text input]) p h
    rw [reading, ← callBytes, ← hk] at hr
    exact hr

/-- What is asked of an entry point that the script has is answered by the live generation. -/
theorem perform_answer (hi : p.isInitialized) (hg : p.context.generation = some g)
    {d : DataRequest} (hd : g.defines d.entryPoint) (h : Host) :
    d.perform p h = ((g.call d.entryPoint d.args h).1.bind d.read,
      p.settledIn .initialized (g.call d.entryPoint d.args h).2.1,
      (g.call d.entryPoint d.args h).2.2) := by
  have hdefines : p.context.defines d.entryPoint := (Context.defines_eq hg _).trans hd
  rw [perform_eq_reading hi hdefines, reading, callData, whenInitialized_of hi, inContext,
    Context.call_eq hg hdefines, settledIn, ← isInitialized_iff.mp hi]

end DataRequest

/-- Data requests one after another, each on a host of its own. -/
def askAll : List (DataRequest × Host) → Plugin → Plugin
  | [], p => p
  | (d, h) :: rest, p => askAll rest (d.perform p h).2.1

/-- What they make of the live generation. -/
def askedAll : List (DataRequest × Host) → Generation → Generation
  | [], g => g
  | (d, h) :: rest, g => askedAll rest (d.asked h g)

theorem askAll_eq (hi : p.isInitialized) (hg : p.context.generation = some g)
    (requests : List (DataRequest × Host)) :
    askAll requests p = p.settledIn .initialized (askedAll requests g) := by
  induction requests generalizing p g with
  | nil => rw [askAll, askedAll, settledIn, ← hg, ← isInitialized_iff.mp hi]
  | cons r rest ih =>
    rw [askAll, askedAll, r.1.perform_plugin hi hg r.2]
    exact ih rfl rfl

/-- However much data is asked for, the next answer comes from the generation. -/
def AnswersFrom (g : Generation) (p : Plugin) : Prop :=
  ∀ (requests : List (DataRequest × Host)) (d : DataRequest) (h : Host), g.defines d.entryPoint →
    d.perform (askAll requests p) h =
      (((askedAll requests g).call d.entryPoint d.args h).1.bind d.read,
        p.settledIn .initialized ((askedAll requests g).call d.entryPoint d.args h).2.1,
        ((askedAll requests g).call d.entryPoint d.args h).2.2)

theorem defines_askedAll (requests : List (DataRequest × Host)) (g : Generation)
    (entryPoint : String) : (askedAll requests g).defines entryPoint = g.defines entryPoint := by
  induction requests generalizing g with
  | nil => rfl
  | cons r rest ih =>
    refine (ih _).trans ?_
    unfold DataRequest.asked
    split <;> rfl

theorem answersFrom (hi : p.isInitialized) (hg : p.context.generation = some g) :
    AnswersFrom g p := by
  intro requests d h hd
  rw [askAll_eq hi hg]
  exact DataRequest.perform_answer rfl rfl ((defines_askedAll requests g _).trans hd) h

/-! ## Out of service -/

/-- Whether a request hands over a configuration. -/
def Request.HandsOver : Request → Prop
  | .start _ | .reconfigure _ => True
  | _ => False

theorem HandedOver.isInitialized_iff {entryPoint : String}
    {outcome : Except PluginError Unit × Plugin × Host} (hi : p.isInitialized = false)
    (hh : HandedOver entryPoint config p h outcome) :
    outcome.2.1.isInitialized ↔ outcome.1 = .ok () := by
  cases hh with
  | unseen hs hd => exact ⟨fun _ => rfl, fun _ => rfl⟩
  | taken hd hc => exact ⟨fun _ => rfl, fun _ => rfl⟩
  | refused hd hc hp =>
    constructor
    · intro hn
      exact absurd (hi.symm.trans (hp (beq_iff_eq.mp hn))) Bool.false_ne_true
    · intro ho
      cases ho

/-- A plugin that is not initialized becomes so by taking a configuration and by nothing else. -/
theorem isInitialized_perform (hi : p.isInitialized = false) (request : Request) (h : Host) :
    (perform request p h).2.1.isInitialized ↔
      request.HandsOver ∧ (perform request p h).1 = .ok () := by
  cases request with
  | start config =>
    have hh := start_handedOver config p h
    exact (hh.isInitialized_iff hi).trans (and_iff_right trivial).symm
  | reconfigure config =>
    have hh := reconfigure_handedOver config p h
    exact (hh.isInitialized_iff hi).trans (and_iff_right trivial).symm
  | reload =>
    refine ⟨fun hn => ?_, fun hn => hn.1.elim⟩
    have hw : p.reloadConfig = none := by rw [reloadConfig, hi, if_neg Bool.false_ne_true]
    rcases reload_cases p h with ⟨e, host, hr⟩ | ⟨next, host, -, hr⟩
    · rw [perform, hr] at hn
      exact absurd (hi.symm.trans hn) Bool.false_ne_true
    · rw [perform, hr, hw] at hn
      exact absurd hn Bool.false_ne_true
  | close =>
    refine ⟨fun hn => ?_, fun hn => hn.1.elim⟩
    have hc : (p.close h).1.context = _ := p.context.close_generation h
    change (p.close h).1.isInitialized = true at hn
    rw [isInitialized, hc] at hn
    exact absurd hn Bool.false_ne_true
  | data d =>
    refine ⟨fun hn => ?_, fun hn => hn.1.elim⟩
    rw [perform, data_uninitialized hi] at hn
    exact absurd (hi.symm.trans hn) Bool.false_ne_true

/-- What a plugin becomes by requests of which none hands over a configuration that is taken. -/
inductive Unserved (p : Plugin) : Plugin → Prop where
  | refl : Unserved p p
  | tail {q : Plugin} (before : Unserved p q) (request : Request) (h : Host)
      (hn : request.HandsOver → (perform request q h).1 ≠ .ok ()) :
      Unserved p (perform request q h).2.1

theorem Unserved.isInitialized (hu : Unserved p q) (hi : p.isInitialized = false) :
    q.isInitialized = false := by
  induction hu with
  | refl => exact hi
  | tail before request h hn ih =>
    rw [← Bool.not_eq_true, isInitialized_perform ih]
    exact fun ⟨ho, hk⟩ => hn ho hk

/-! ## A failed reconfiguration -/

theorem reconfigure_start (hd : p.context.defines Script.EntryPoint.reconfigure = false)
    (config : Record) (h : Host) : p.reconfigure config h = p.start config h := by
  rw [reconfigure, hd, Bool.and_false]
  rfl

/-- A start fails only by a call that fails, and ends in a failed phase. -/
theorem start_refused (he : (p.start config h).1 = .error e) :
    ∃ g, p.context.generation = some g ∧
      (g.call Script.EntryPoint.start [.map config] h).1 = .error e ∧
      p.start config h = (.error e,
        p.settledIn .failed (g.call Script.EntryPoint.start [.map config] h).2.1,
        (g.call Script.EntryPoint.start [.map config] h).2.2) := by
  rw [start, keeping_eq, inContext] at he ⊢
  cases hd : p.context.defines Script.EntryPoint.start with
  | false =>
    rw [Context.start_undefined hd] at he
    cases he
  | true =>
    obtain ⟨g, hg⟩ := Context.exists_generation hd
    refine ⟨g, hg, ?_⟩
    rw [Context.start_defined hd, Context.call_eq hg hd] at he ⊢
    generalize g.call Script.EntryPoint.start [.map config] h = called at he ⊢
    rcases called with ⟨_ | _, next, host⟩
    · cases he
      exact ⟨rfl, rfl⟩
    · cases he

/-- So does a reconfiguration by a script that has a way of its own, but it ends no phase. -/
theorem reconfigure_refused (hi : p.isInitialized)
    (hd : p.context.defines Script.EntryPoint.reconfigure)
    (he : (p.reconfigure config h).1 = .error e) :
    ∃ g, p.context.generation = some g ∧
      (g.call Script.EntryPoint.reconfigure [.map config] h).1 = .error e ∧
      p.reconfigure config h = (.error e,
        p.settledIn .initialized (g.call Script.EntryPoint.reconfigure [.map config] h).2.1,
        (g.call Script.EntryPoint.reconfigure [.map config] h).2.2) := by
  obtain ⟨g, hg⟩ := Context.exists_generation hd
  refine ⟨g, hg, ?_⟩
  rw [settledIn, ← isInitialized_iff.mp hi]
  rw [reconfigure, hi, hd, keeping_eq, Bool.and_self, if_pos rfl, reading, inContext,
    Context.call_eq hg hd] at he ⊢
  generalize g.call Script.EntryPoint.reconfigure [.map config] h = called at he ⊢
  rcases called with ⟨_ | _, next, host⟩
  · cases he
    exact ⟨rfl, rfl⟩
  · cases he

/-- A reconfiguration of an initialized plugin that fails is a call of the live generation that
fails. All it changes is what the script has made of the call: the remembered configuration and the
generation stay. If the script has a way of its own to be reconfigured, the plugin stays initialized
and that generation answers for data; otherwise the plugin has failed and refuses data, until a
configuration is taken. -/
theorem reconfigure_failed (hi : p.isInitialized) (he : (p.reconfigure config h).1 = .error e) :
    ∃ g, p.context.generation = some g ∧
      let called := g.call (p.handover (.reconfigure config)) [.map config] h
      let own := p.context.defines Script.EntryPoint.reconfigure
      let after := p.settledIn (if own then .initialized else .failed) called.2.1
      called.1 = .error e ∧ p.reconfigure config h = (.error e, after, called.2.2) ∧
      after.lastConfig = p.lastConfig ∧
      called.2.1.entryPoints = g.entryPoints ∧
      called.2.1.engine.module.map (·.exports) = g.engine.module.map (·.exports) ∧
      (own → after.isInitialized ∧ AnswersFrom called.2.1 after) ∧
      (¬ own → after.readiness = .error ∧ ∀ q, Unserved after q →
        (∀ (d : DataRequest) h, d.perform q h = (.error (d.refusal q), q, h)) ∧
        ∀ request h, (perform request q h).2.1.isInitialized ↔
          request.HandsOver ∧ (perform request q h).1 = .ok ()) := by
  cases hd : p.context.defines Script.EntryPoint.reconfigure with
  | true =>
    obtain ⟨g, hg, hc, hr⟩ := reconfigure_refused hi hd he
    have hn : p.handover (.reconfigure config) = Script.EntryPoint.reconfigure := by
      rw [handover, hi, hd]
      rfl
    refine ⟨g, hg, ?_⟩
    rw [hn]
    exact ⟨hc, hr, rfl, rfl, Script.Engine.call_exports .., fun _ => ⟨rfl, answersFrom rfl rfl⟩,
      fun ho => absurd rfl ho⟩
  | false =>
    rw [reconfigure_start hd] at he ⊢
    obtain ⟨g, hg, hc, hr⟩ := start_refused he
    have hn : p.handover (.reconfigure config) = Script.EntryPoint.start := by
      rw [handover, hd, Bool.and_false]
      rfl
    refine ⟨g, hg, ?_⟩
    rw [hn]
    refine ⟨hc, hr, rfl, rfl, Script.Engine.call_exports .., fun ho => absurd ho Bool.false_ne_true,
      fun _ => ⟨rfl, fun q hu => ?_⟩⟩
    have hq := hu.isInitialized rfl
    exact ⟨data_uninitialized hq, isInitialized_perform hq⟩

/-! ## A script that refuses labels -/

/-- A script that takes configurations by one entry point, and none that has a label. -/
def strictScript (entryPoint : String) : String :=
  "\x7b\"entries\":[[\"fetchData\",[\"list\",[]]],[\"serializeKey\",[\"x\"]]," ++
    "[\"serializeValue\",[\"x\"]],[\"" ++ entryPoint ++
    "\",[\"if\",[\"get\",[\"arg\",0],\"label\"],[\"throw\",\"refused\"],[\"list\",[]]]]]\x7d"

/-- The plugin of such a script once it has been started without a label. -/
def strict (entryPoint : String) : Plugin × Ledger :=
  performAll [(.start [], scriptHost (strictScript entryPoint))]
    (scriptPlugin (strictScript entryPoint), .empty)

theorem reached_strict {entryPoint : String}
    (hk : (scriptLoad (strictScript entryPoint)).1.isOk) :
    Reached (strict entryPoint).1 (strict entryPoint).2 :=
  (Reached.opened (ofManifest_script hk)).performAll _

/-- What a plugin with such a script comes to by a reconfiguration with a label. -/
def relabelled (entryPoint : String) : Except PluginError Unit × Plugin × Host :=
  (strict entryPoint).1.reconfigure (labelled "b") (scriptHost (strictScript entryPoint))

def refusedBy (entryPoint : String) : PluginError := .script "a" entryPoint "Error: refused\n"

/-- A plugin whose script can only be started is out of service after a reconfiguration that fails:
it is not initialized any more and refuses data. -/
theorem reconfigure_failed_unserved :
    Reached (strict Script.EntryPoint.start).1 (strict Script.EntryPoint.start).2 ∧
    (strict Script.EntryPoint.start).1.isInitialized ∧
    (relabelled Script.EntryPoint.start).1 = .error (refusedBy Script.EntryPoint.start) ∧
    (relabelled Script.EntryPoint.start).2.1.isInitialized = false ∧
    (relabelled Script.EntryPoint.start).2.1.readiness = .error ∧
    ((relabelled Script.EntryPoint.start).2.1.fetch [] (scriptHost "")).1.isOk = false ∧
    ((strict Script.EntryPoint.start).1.fetch [] (scriptHost "")).1.isOk := by
  have hr : Reached (strict Script.EntryPoint.start).1 (strict Script.EntryPoint.start).2 :=
    reached_strict (by decide +kernel)
  refine ⟨hr, ?_⟩
  decide +kernel

/-- A script that can be reconfigured refuses a label and goes on. -/
theorem reconfigure_failed_served :
    (strict Script.EntryPoint.reconfigure).1.isInitialized ∧
    (relabelled Script.EntryPoint.reconfigure).1 =
      .error (refusedBy Script.EntryPoint.reconfigure) ∧
    ∃ g, (strict Script.EntryPoint.reconfigure).1.context.generation = some g ∧
      AnswersFrom (g.call Script.EntryPoint.reconfigure [.map (labelled "b")]
        (scriptHost (strictScript Script.EntryPoint.reconfigure))).2.1
        (relabelled Script.EntryPoint.reconfigure).2.1 := by
  obtain ⟨hi, hd, he⟩ : (strict Script.EntryPoint.reconfigure).1.isInitialized ∧
      (strict Script.EntryPoint.reconfigure).1.context.defines Script.EntryPoint.reconfigure ∧
      (relabelled Script.EntryPoint.reconfigure).1 =
        .error (refusedBy Script.EntryPoint.reconfigure) := by decide +kernel
  refine ⟨hi, he, ?_⟩
  rw [relabelled] at he ⊢
  generalize (strict Script.EntryPoint.reconfigure).1 = p at hi hd he ⊢
  have hn : p.handover (.reconfigure (labelled "b")) = Script.EntryPoint.reconfigure := by
    rw [handover, hi, hd]
    rfl
  obtain ⟨g, hg, -, hr, -, -, -, hs, -⟩ := reconfigure_failed hi he
  obtain ⟨-, ha⟩ := hs hd
  rw [hn] at hr ha
  rw [hr]
  exact ⟨g, hg, ha⟩

end Plugin

end TrieFeed
