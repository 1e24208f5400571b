import TrieFeed.Proofs.Plugin.Reload
/-!
# The life of a generation

A generation is loaded once, and from then on only calls of its entry points change it. Which calls
those were, and which configuration its script took last, is the history of the generation.
-/
namespace TrieFeed

structure Call where
  entryPoint : String
  args : List Value
  worked : Bool

namespace Call

/-- The entry points by which a script takes a configuration. -/
def HandsOver (entryPoint : String) : Prop :=
  entryPoint = Script.EntryPoint.start ∨ entryPoint = Script.EntryPoint.reconfigure

instance : DecidablePred HandsOver := fun _ => inferInstanceAs (Decidable (_ ∨ _))

/-- The configuration that the script took by a call. -/
def taken? (call : Call) : Option Record :=
  match call.args with
  | [.map config] => if call.worked ∧ HandsOver call.entryPoint then some config else none
  | _ => none

/-- The configuration that the script took last. -/
def latest (calls : List Call) : Option Record := (calls.filterMap taken?).getLast?

variable {calls : List Call} {call : Call} {config : Record}

theorem latest_snoc_of_taken (h : call.taken? = some config) :
    latest (calls ++ [call]) = some config := by
  rw [latest, List.filterMap_append, List.filterMap_cons_some h, List.filterMap_nil,
    List.getLast?_concat]

theorem latest_snoc_of_none (h : call.taken? = none) : latest (calls ++ [call]) = latest calls := by
  rw [latest, List.filterMap_append, List.filterMap_cons_none h, List.filterMap_nil,
    List.append_nil, latest]

theorem taken_of_failed (h : call.worked = false) : call.taken? = none := by
  unfold taken?
  split
  · rw [if_neg fun ht => Bool.false_ne_true (h ▸ ht.1)]
  · rfl

theorem taken_of_other (h : ¬ HandsOver call.entryPoint) : call.taken? = none := by
  unfold taken?
  split
  · rw [if_neg fun ht => h ht.2]
  · rfl

theorem taken_of_handsOver {entryPoint : String} (h : HandsOver entryPoint) :
    (⟨entryPoint, [.map config], true⟩ : Call).taken? = some config := by
  rw [taken?]
  exact if_pos ⟨rfl, h⟩

end Call

/-- A generation that has been loaded and then called so, each call in its own time. -/
inductive Generation.Lived : List Call → Generation → Prop where
  | loaded {fresh g : Generation} {source fileName : String} {h h' : Host}
      (hl : fresh.load source fileName h = (.ok (), g, h')) : Lived [] g
  | called {calls : List Call} {g : Generation} (before : Lived calls g) (entryPoint : String)
      (args : List Value) (h : Host) :
      Lived (calls ++ [⟨entryPoint, args, (g.call entryPoint args h).1.isOk⟩])
        (g.call entryPoint args h).2.1

namespace Context

variable {c : Context} {config : Option Record} {h : Host} {calls : List Call}

/-- The live generation, if there is one, has been called so. -/
def Lived (calls : List Call) (c : Context) : Prop := ∀ g, c.generation = some g → g.Lived calls

/-- The call that asking for an entry point leads to, if the script defines it. -/
def asked (entryPoint : String) (args : List Value) (h : Host) (c : Context) : List Call :=
  if c.defines entryPoint then [⟨entryPoint, args, (c.call entryPoint args h).1.isOk⟩] else []

theorem asked_defined {entryPoint : String} (hd : c.defines entryPoint) (args : List Value)
    (h : Host) :
    c.asked entryPoint args h = [⟨entryPoint, args, (c.call entryPoint args h).1.isOk⟩] := if_pos hd

theorem asked_undefined {entryPoint : String} (hd : c.defines entryPoint = false)
    (args : List Value) (h : Host) : c.asked entryPoint args h = [] := by
  rw [asked, hd, if_neg Bool.false_ne_true]

theorem defines_eq {g : Generation} (hg : c.generation = some g) (entryPoint : String) :
    c.defines entryPoint = g.defines entryPoint := by
  rw [defines, entryPoints, hg]
  rfl

theorem exists_generation {entryPoint : String} (hd : c.defines entryPoint) :
    ∃ g, c.generation = some g := by
  cases hg : c.generation with
  | none => rw [defines, entryPoints, hg] at hd; cases hd
  | some g => exact ⟨g, rfl⟩

theorem call_eq {g : Generation} {entryPoint : String} (hg : c.generation = some g)
    (hd : c.defines entryPoint) (args : List Value) (h : Host) : c.call entryPoint args h =
      ((g.call entryPoint args h).1, { c with generation := some (g.call entryPoint args h).2.1 },
        (g.call entryPoint args h).2.2) := by
  rw [call, hg]
  dsimp only
  rw [if_pos (defines_eq hg entryPoint ▸ hd)]

/-- Nothing is called that the script does not define. -/
theorem call_undefined {entryPoint : String} (hd : c.defines entryPoint = false)
    (args : List Value) (h : Host) : ∃ e, c.call entryPoint args h = (.error e, c, h) := by
  rw [call]
  cases hg : c.generation with
  | none => exact ⟨_, rfl⟩
  | some g =>
    dsimp only
    rw [← defines_eq hg, hd]
    exact ⟨_, rfl⟩

/-- A call changes nothing but the state of the live generation. -/
theorem call_keeps (entryPoint : String) (args : List Value) (c : Context) (h : Host) :
    (c.call entryPoint args h).2.1.phase = c.phase ∧
      ∀ name, (c.call entryPoint args h).2.1.defines name = c.defines name := by
  cases hd : c.defines entryPoint with
  | false =>
    obtain ⟨e, hc⟩ := call_undefined hd args h
    rw [hc]
    exact ⟨rfl, fun _ => rfl⟩
  | true =>
    obtain ⟨g, hg⟩ := exists_generation hd
    rw [call_eq hg hd]
    refine ⟨rfl, fun name => ?_⟩
    rw [defines_eq hg, defines_eq rfl]
    rfl

theorem Lived.call (hl : c.Lived calls) (entryPoint : String) (args : List Value) (h : Host) :
    (c.call entryPoint args h).2.1.Lived (calls ++ c.asked entryPoint args h) := by
  cases hd : c.defines entryPoint with
  | false =>
    obtain ⟨e, hc⟩ := call_undefined hd args h
    rw [asked_undefined hd, hc, List.append_nil]
    exact hl
  | true =>
    obtain ⟨g, hg⟩ := exists_generation hd
    rw [asked_defined hd, call_eq hg hd]
    rintro next hn
    cases hn
    exact (hl g hg).called entryPoint args h

theorem start_undefined (hd : c.defines Script.EntryPoint.start = false) (config : Record)
    (h : Host) : c.start config h = (.ok (), { c with phase := .initialized }, h) := by
  rw [start]
  cases hg : c.generation with
  | none => rfl
  | some g =>
    dsimp only
    rw [Generation.start, ← defines_eq hg, hd, if_neg Bool.false_ne_true]

/-- A start is a call, which settles the phase. -/
theorem start_defined (hd : c.defines Script.EntryPoint.start) (config : Record) (h : Host) :
    c.start config h =
      match c.call Script.EntryPoint.start [.map config] h with
      | (.ok _, c, h) => (.ok (), { c with phase := .initialized }, h)
      | (.error e, c, h) => (.error e, { c with phase := .failed }, h) := by
  obtain ⟨g, hg⟩ := exists_generation hd
  rw [call_eq hg hd, start, hg]
  dsimp only
  rw [Generation.start, if_pos (defines_eq hg _ ▸ hd)]
  rcases g.call Script.EntryPoint.start [.map config] h with ⟨_ | _, next, host⟩ <;> rfl

/-- The calls that start a script with a configuration, if there is one and the script wants it. -/
def startCalls (config : Option Record) (c : Context) : List Call :=
  match config with
  | some record =>
    if c.defines Script.EntryPoint.start then
      [⟨Script.EntryPoint.start, [.map record], true⟩] else []
  | none => []

theorem startCalls_defined (hd : c.defines Script.EntryPoint.start) (record : Record) :
    c.startCalls (some record) = [⟨Script.EntryPoint.start, [.map record], true⟩] := if_pos hd

theorem startCalls_undefined (hd : c.defines Script.EntryPoint.start = false) (record : Record) :
    c.startCalls (some record) = [] := by
  rw [startCalls, hd, if_neg Bool.false_ne_true]

theorem lived_of_startsWith {loaded next : Generation} {host : Host}
    (hl : loaded.Lived []) (hw : loaded.StartsWith config h next host)
    (hg : c.generation = some next) : c.Lived (c.startCalls config) := by
  intro g hn
  cases hg.symm.trans hn
  have hk := hw.keeps.1
  cases config with
  | none =>
    obtain ⟨rfl, -⟩ := hw
    exact hl
  | some record =>
    have hd : c.defines Script.EntryPoint.start = loaded.defines Script.EntryPoint.start := by
      rw [defines_eq hg, Generation.defines, Generation.defines, hk]
    change loaded.start record h = _ at hw
    rw [Generation.start, ← hd] at hw
    cases hc : c.defines Script.EntryPoint.start with
    | false =>
      rw [startCalls_undefined hc]
      rw [hc] at hw
      cases hw
      exact hl
    | true =>
      have hlived := hl.called Script.EntryPoint.start [.map record] h
      rw [startCalls_defined hc]
      rw [hc, if_pos rfl] at hw
      rcases hr : loaded.call Script.EntryPoint.start [.map record] h with ⟨_ | v, after, host'⟩
      · rw [hr] at hw
        cases hw
      · rw [hr] at hw hlived
        cases hw
        exact hlived

/-- What a reload puts in place has been loaded, and then started if there was a configuration. -/
theorem lived_of_stage {next : Generation} {host : Host} (hs : c.stage config h = (.ok next, host))
    {c' : Context} (hg : c'.generation = some next) : c'.Lived (c'.startCalls config) := by
  obtain ⟨source, fresh, host', -, -, hp⟩ := exists_of_stage hs
  rcases Generation.prepare_cases source c.scriptPath.lastName config fresh host' with
    ⟨e, after, host'', hp', -⟩ | ⟨loaded, next', host'', host₃, hp', hl, -, hw⟩
  · cases hp.symm.trans hp'
  · cases hp.symm.trans hp'
    exact lived_of_startsWith (.loaded hl) hw hg

theorem load_lived {c' : Context} {h' : Host} (hl : c.load h = (.ok (), c', h')) :
    c'.phase = .loaded ∧ c'.Lived [] := by
  rw [load] at hl
  cases hr : c.readScript h with
  | error e => rw [hr] at hl; cases hl
  | ok source =>
    rw [hr] at hl
    cases hg : c.generation with
    | none => rw [hg] at hl; cases hl
    | some g =>
      rw [hg] at hl
      dsimp only at hl
      rcases hn : g.load source c.scriptPath.lastName h with ⟨_ | _, next, host⟩
      · rw [hn] at hl
        cases hl
      · rw [hn] at hl
        cases hl
        refine ⟨rfl, fun g' hg' => ?_⟩
        cases hg'
        exact .loaded hn

/-- A context starts its life loaded, without a call. -/
theorem createLoaded_lived {provider : String} {language : Language} {scriptPath : Path}
    {sandbox : Sandbox} {h' : Host}
    (hc : createLoaded provider language scriptPath sandbox h = (.ok c, h')) :
    c.phase = .loaded ∧ c.Lived [] := by
  rw [createLoaded] at hc
  rcases ho : create provider language scriptPath sandbox h with ⟨_ | opened, host⟩
  · rw [ho] at hc
    cases hc
  · rw [ho] at hc
    dsimp only at hc
    rcases hl : opened.load host with ⟨_ | _, after, host'⟩
    · rw [hl] at hc
      cases hc
    · rw [hl] at hc
      cases hc
      exact load_lived hl

/-- A context that is opened on a script that loads. -/
theorem createLoaded_of_load {source : String} {opened loaded : Generation} {h₁ h₂ : Host}
    (hp : c.phase = .unloaded) (hn : c.generation = none)
    (hg : c.createGeneration h = (.ok opened, h₁)) (hs : c.readScript h₁ = .ok source)
    (hl : opened.load source c.scriptPath.lastName h₁ = (.ok (), loaded, h₂)) :
    createLoaded c.provider c.language c.scriptPath c.sandbox h =
      (.ok { c with phase := .loaded, generation := some loaded }, h₂) := by
  obtain ⟨provider, language, scriptPath, sandbox, phase, generation⟩ := c
  cases hp
  cases hn
  have ho : create provider language scriptPath sandbox h =
      (.ok ⟨provider, language, scriptPath, sandbox, .unloaded, some opened⟩, h₁) := by
    rw [create]
    dsimp only
    rw [hg]
  have hr : load ⟨provider, language, scriptPath, sandbox, .unloaded, some opened⟩ h₁ =
      (.ok (), ⟨provider, language, scriptPath, sandbox, .loaded, some loaded⟩, h₂) := by
    -- what is read does not depend on the generation
    have hs : readScript ⟨provider, language, scriptPath, sandbox, .unloaded, some opened⟩ h₁ =
      .ok source := hs
    rw [load, hs]
    dsimp only
    rw [hl]
  dsimp only
  rw [createLoaded, ho]
  dsimp only
  rw [hr]

end Context

end TrieFeed
