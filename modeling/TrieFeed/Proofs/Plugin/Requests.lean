import TrieFeed.Proofs.Plugin.Calls
/-!
# Requests of a plugin

What can be asked of a plugin, and what each request does to it: one for data goes to the live
script or is refused, and one that hands over a configuration leaves it to the script to take it.
-/
namespace TrieFeed

/-- The entry points that ask for data. -/
def Call.dataNames : List String :=
  [Script.EntryPoint.fetch, Script.EntryPoint.key, Script.EntryPoint.value,
    Script.EntryPoint.validate, Script.EntryPoint.keyFromInput]

namespace Plugin

inductive DataRequest where
  | fetch (config : Record)
  | key (record : Record)
  | value (record : Record)
  | validate (record : Record)
  | keyFromInput (input : String)

namespace DataRequest

def entryPoint : DataRequest → String
  | .fetch _ => Script.EntryPoint.fetch
  | .key _ => Script.EntryPoint.key
  | .value _ => Script.EntryPoint.value
  | .validate _ => Script.EntryPoint.validate
  | .keyFromInput _ => Script.EntryPoint.keyFromInput

theorem entryPoint_mem (d : DataRequest) : d.entryPoint ∈ Call.dataNames := by
  cases d <;> simp [entryPoint, Call.dataNames]

def args : DataRequest → List Value
  | .fetch record | .key record | .value record | .validate record => [.map record]
  | .keyFromInput input => [.text input]

/-- Does what is requested, and says whether it worked. -/
def perform : DataRequest → Step Unit
  | .fetch config => reading (fun _ => .ok ()) (Plugin.fetch config)
  | .key record => reading (fun _ => .ok ()) (Plugin.key record)
  | .value record => reading (fun _ => .ok ()) (Plugin.value record)
  | .validate record => reading (fun _ => .ok ()) (Plugin.validate record)
  | .keyFromInput input => reading (fun _ => .ok ()) (Plugin.keyFromInput input)

/-- The error of a plugin that is not initialized. -/
def refusal (p : Plugin) : DataRequest → PluginError
  | .keyFromInput _ =>
    if p.context.defines Script.EntryPoint.keyFromInput then .notInitialized p.name
    else .unsupported p.name Script.EntryPoint.keyFromInput
  | _ => .notInitialized p.name

end DataRequest

inductive Request where
  | start (config : Record)
  | reconfigure (config : Record)
  | reload
  | close
  | data (d : DataRequest)

def perform : Request → Step Unit
  | .start config => start config
  | .reconfigure config => reconfigure config
  | .reload => reload
  | .close => fun p h => (.ok (), p.close h)
  | .data d => d.perform

variable {p : Plugin} {h : Host}

/-! ## Asking for data -/

theorem reading_snd {α β : Type} (read : α → Except PluginError β) (work : Step α) (p : Plugin)
    (h : Host) : (reading read work p h).2 = (work p h).2 := rfl

theorem reading_error {α β : Type} {read : α → Except PluginError β} {work : Step α}
    {e : PluginError} {after : Plugin × Host} (hw : work p h = (.error e, after)) :
    reading read work p h = (.error e, after) := by
  rw [reading, hw]
  rfl

theorem whenInitialized_of_not {α : Type} (hi : p.isInitialized = false) (work : Step α)
    (h : Host) : whenInitialized work p h = (.error (.notInitialized p.name), p, h) := by
  rw [whenInitialized, hi, if_neg Bool.false_ne_true]

theorem whenInitialized_of {α : Type} (hi : p.isInitialized) (work : Step α) (h : Host) :
    whenInitialized work p h = work p h := by
  rw [whenInitialized, if_pos hi]

theorem callData_initialized (hi : p.isInitialized) (entryPoint : String) (args : List Value)
    (h : Host) : callData entryPoint args p h = inContext (Context.call entryPoint args) p h := by
  rw [callData, whenInitialized_of hi]

/-- A plugin that is not initialized refuses, and neither it nor the host changes. -/
theorem data_uninitialized (hi : p.isInitialized = false) (d : DataRequest) (h : Host) :
    d.perform p h = (.error (d.refusal p), p, h) := by
  cases d with
  | fetch config => exact reading_error (reading_error (whenInitialized_of_not hi _ h))
  | key record => exact reading_error (reading_error (whenInitialized_of_not hi _ h))
  | value record => exact reading_error (reading_error (whenInitialized_of_not hi _ h))
  | validate record =>
    rw [DataRequest.perform, validate]
    exact reading_error (whenInitialized_of_not hi _ h)
  | keyFromInput input =>
    rw [DataRequest.perform, DataRequest.refusal]
    refine reading_error ?_
    rw [keyFromInput]
    split
    · exact reading_error (whenInitialized_of_not hi _ h)
    · rfl

/-- An initialized plugin asks its context for the entry point, and nothing else happens. -/
theorem data_called (hi : p.isInitialized) (d : DataRequest) (h : Host) :
    (d.perform p h).2 = (inContext (Context.call d.entryPoint d.args) p h).2 := by
  have hcall := fun entryPoint args =>
    congrArg Prod.snd (callData_initialized hi entryPoint args h)
  cases d with
  | fetch config => exact hcall ..
  | key record => exact hcall ..
  | value record => exact hcall ..
  | validate record =>
    rw [DataRequest.perform, reading_snd, validate, whenInitialized_of hi]
    cases hd : p.context.defines Script.EntryPoint.validate with
    | true => rfl
    | false =>
      obtain ⟨e, hc⟩ := Context.call_undefined hd [.map record] h
      rw [DataRequest.entryPoint, DataRequest.args, inContext, hc]
      rfl
  | keyFromInput input =>
    rw [DataRequest.perform, reading_snd, keyFromInput]
    cases hd : p.context.defines Script.EntryPoint.keyFromInput with
    | true => exact hcall ..
    | false =>
      obtain ⟨e, hc⟩ := Context.call_undefined hd [.text input] h
      rw [DataRequest.entryPoint, DataRequest.args, inContext, hc]
      rfl

theorem data_initialized (hi : p.isInitialized) (d : DataRequest) (h : Host) :
    (d.perform p h).2.1 = { p with context := (p.context.call d.entryPoint d.args h).2.1 } :=
  congrArg Prod.fst (data_called hi d h)

theorem data_host (hi : p.isInitialized) (d : DataRequest) (h : Host) :
    (d.perform p h).2.2 = (p.context.call d.entryPoint d.args h).2.2 :=
  congrArg Prod.snd (data_called hi d h)

/-! ## Handing over -/

/-- The entry point by which a configuration is handed over. -/
def handover (p : Plugin) : Request → String
  | .reconfigure _ =>
    if p.isInitialized && p.context.defines Script.EntryPoint.reconfigure then
      Script.EntryPoint.reconfigure
    else Script.EntryPoint.start
  | _ => Script.EntryPoint.start

theorem keeping_eq (config : Record) (work : Step Unit) (p : Plugin) (h : Host) :
    keeping config work p h =
      match work p h with
      | (.ok (), p, h) => (.ok (), { p with lastConfig := some config }, h)
      | (.error e, p, h) => (.error e, p, h) := rfl

/-- What comes of handing over a configuration: without the entry point it is taken unseen, and with
it the call decides. -/
inductive HandedOver (entryPoint : String) (config : Record) (p : Plugin) (h : Host) :
    Except PluginError Unit × Plugin × Host → Prop where
  | unseen (hs : entryPoint = Script.EntryPoint.start) (hd : p.context.defines entryPoint = false) :
      HandedOver entryPoint config p h
        (.ok (), { p with
          context := { p.context with phase := .initialized }
          lastConfig := some config }, h)
  | taken {v c h'} (hd : p.context.defines entryPoint)
      (hc : p.context.call entryPoint [.map config] h = (.ok v, c, h')) :
      HandedOver entryPoint config p h
        (.ok (), { p with
          context := { c with phase := .initialized }
          lastConfig := some config }, h')
  | refused {e c h' phase} (hd : p.context.defines entryPoint)
      (hc : p.context.call entryPoint [.map config] h = (.error e, c, h'))
      (hp : phase = .initialized → p.isInitialized) :
      HandedOver entryPoint config p h
        (.error e, { p with context := { c with phase := phase } }, h')

theorem start_handedOver (config : Record) (p : Plugin) (h : Host) :
    HandedOver Script.EntryPoint.start config p h (p.start config h) := by
  rw [start, keeping_eq, inContext]
  cases hd : p.context.defines Script.EntryPoint.start with
  | false =>
    rw [Context.start_undefined hd]
    exact .unseen rfl hd
  | true =>
    rw [Context.start_defined hd]
    rcases hc : p.context.call Script.EntryPoint.start [.map config] h with ⟨e | v, c, h'⟩
    · exact .refused hd hc fun hp => by cases hp
    · exact .taken hd hc

theorem reconfigure_handedOver (config : Record) (p : Plugin) (h : Host) :
    HandedOver (p.handover (.reconfigure config)) config p h (p.reconfigure config h) := by
  rw [reconfigure, handover]
  cases hr : p.isInitialized && p.context.defines Script.EntryPoint.reconfigure with
  | false => exact start_handedOver config p h
  | true =>
    obtain ⟨hi, hd⟩ := Bool.and_eq_true_iff.mp hr
    rw [if_pos rfl, if_pos rfl, keeping_eq, reading, inContext]
    have hk := (Context.call_keeps Script.EntryPoint.reconfigure [.map config] p.context h).1
    have hp : p.context.phase = .initialized := beq_iff_eq.mp hi
    rcases hc : p.context.call Script.EntryPoint.reconfigure [.map config] h with ⟨e | v, c, h'⟩
    · exact .refused hd hc fun _ => hi
    · rw [hc, hp] at hk
      have hw := HandedOver.taken hd hc
      rw [← hk] at hw
      exact hw

end Plugin

end TrieFeed
