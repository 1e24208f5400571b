import TrieFeed.Proofs.Capability.Footprint
import TrieFeed.Proofs.Plugin.Quiet
import TrieFeed.Proofs.Plugin.Standing
/-!
# The footprint of a turn

A turn looks for the manifest, the script and the directory itself. Whatever else it comes upon is
what the script asks for, when it is loaded, asked for its schema and started, and what a plugin asks
for that is closed in favour of the new one.
-/
namespace TrieFeed

open Script (Engine)

variable {part : Touch → Prop} {kind : Host → Prop} {α β : Type}

namespace Generation

/-- The reader below a directory that has been found. -/
def readerOf (found : Except FileFault Path) : Except PluginError SandboxedFile :=
  (found.map SandboxedFile.mk).mapError fun fault => .file fault.message

/-- A generation that has not been loaded, if its engine was created. -/
def started (provider : String) (created : Except PluginError Engine) (h : Host) :
    Except PluginError Generation × Host :=
  match created with
  | .ok engine => (.ok ⟨engine, []⟩, h.engineStarted provider)
  | .error e => (.error e, h)

theorem confined_create (hs : Sighted kind) {directory : Path}
    (hr : Looks part kind fun h => h.files.canonical directory) (provider : String)
    (language : Language) (sandbox : Sandbox) :
    Confined part kind (create provider language directory sandbox) := by
  have hl : Looks part kind fun h =>
      (Capabilities.create provider directory sandbox true h.files).bind (Engine.create language) := by
    refine (hr.map fun found => ((readerOf found).map fun file =>
      (⟨provider, sandbox, true, file, [], none⟩ : Capabilities)).bind (Engine.create language)).of_eq
        fun h => ?_
    unfold Capabilities.create SandboxedFile.ofDirectory
    cases h.files.canonical directory <;> rfl
  refine (@Looks.follow part _ _ kind _ (started provider) hl fun h _ => ?_).of_eq fun h => ?_
  · cases (Capabilities.create provider directory sandbox true h.files).bind
      (Engine.create language) with
    | error e => exact .done (Except.error e)
    | ok engine =>
      exact .aside hs (Host.aside_engineStarted provider) (Except.ok (⟨engine, []⟩ : Generation))
  · unfold create started
    cases (Capabilities.create provider directory sandbox true h.files).bind
      (Engine.create language) <;> rfl

theorem created_eq {provider : String} {language : Language} {directory : Path} {sandbox : Sandbox}
    {h : Host} {g : Generation} (hg : (create provider language directory sandbox h).1 = .ok g) :
    ∃ capabilities, g = ⟨⟨capabilities, none, false⟩, []⟩ := by
  rw [create, Capabilities.create] at hg
  cases ho : SandboxedFile.ofDirectory h.files directory with
  | error e =>
    rw [ho] at hg
    cases hg
  | ok file =>
    rw [ho] at hg
    cases language with
    | javascript =>
      cases hg
      exact ⟨_, rfl⟩
    | python => cases hg

end Generation

namespace Context

theorem confined_close {c : Context} (hs : Sighted kind)
    (hc : ∀ g, c.generation = some g → g.defines Script.EntryPoint.close →
      Confined part kind (paired (g.call Script.EntryPoint.close []))) :
    Confined part kind c.close := by
  cases hg : c.generation with
  | none =>
    refine (Confined.done { c with phase := .closed, generation := none }).of_eq fun h => ?_
    rw [close, hg]
  | some g =>
    cases hd : g.defines Script.EntryPoint.close with
    | false =>
      refine (Confined.aside hs (Host.aside_engineEnded g.provider)
        { c with phase := .closed, generation := none }).of_eq fun h => ?_
      rw [close, hg]
      dsimp only
      rw [hd, if_neg Bool.false_ne_true]
      rfl
    | true =>
      refine (@Confined.bind part _ _ kind _ (fun called h =>
        ({ c with phase := .closed, generation := none }, called.2.stop h)) (hc g hg hd)
        fun h _ => ?_).of_eq fun h => ?_
      · exact .aside hs (Host.aside_engineEnded _) { c with phase := .closed, generation := none }
      · rw [close, hg]
        dsimp only
        rw [hd, if_pos rfl]
        rfl

/-- A context after work on its generation that leads to a phase. -/
def leading (c : Context) (phase : Phase) :
    Except PluginError Unit × Generation → Except PluginError Unit × Context
  | (.ok (), g) => (.ok (), { c with phase, generation := some g })
  | (.error e, g) => (.error e, { c with phase := .failed, generation := some g })

/-- Loads the text of a script that has been read. -/
def loadedFrom (c : Context) (text : Except FileFault String) (h : Host) :
    (Except PluginError Unit × Context) × Host :=
  match text, c.generation with
  | .error fault, _ => ((.error (.scriptLoad c.provider
      s!"cannot read {c.scriptPath.text}: {fault.message}"), { c with phase := .failed }), h)
  | .ok _, none => ((.error (.contextClosed c.provider), { c with phase := .failed }), h)
  | .ok source, some g =>
    (c.leading .loaded (paired (g.load source c.scriptPath.lastName) h).1,
      (paired (g.load source c.scriptPath.lastName) h).2)

theorem confined_load {c : Context} (hr : Looks part kind fun h => h.files.readText c.scriptPath)
    (hl : ∀ h source g, kind h → h.files.readText c.scriptPath = .ok source →
      c.generation = some g →
      Confined part kind (paired (g.load source c.scriptPath.lastName))) :
    Confined part kind (paired c.load) := by
  refine (@Looks.follow part _ _ kind _ c.loadedFrom hr fun h hk => ?_).of_eq fun h => ?_
  · unfold loadedFrom
    cases ht : h.files.readText c.scriptPath with
    | error fault => exact .done _
    | ok source =>
      cases hg : c.generation with
      | none => exact .done _
      | some g => exact (hl h source g hk ht hg).map (c.leading .loaded)
  · unfold paired loadedFrom
    rw [load, readScript]
    cases h.files.readText c.scriptPath with
    | error fault => rfl
    | ok source =>
      cases c.generation with
      | none => rfl
      | some g =>
        dsimp only [Except.mapError, paired]
        rcases g.load source c.scriptPath.lastName h with ⟨_ | _, next, host⟩ <;> rfl

variable {provider : String} {language : Language} {path : Path} {sandbox : Sandbox}

theorem created_eq {h : Host} {c : Context}
    (hc : (create provider language path sandbox h).1 = .ok c) :
    ∃ capabilities, c = ⟨provider, language, path, sandbox, .unloaded,
      some ⟨⟨capabilities, none, false⟩, []⟩⟩ := by
  rw [create, createGeneration] at hc
  dsimp only at hc
  rcases hg : Generation.create provider language path.parent sandbox h with ⟨e | g, host⟩
  · rw [hg] at hc
    cases hc
  · rw [hg] at hc
    cases hc
    obtain ⟨capabilities, rfl⟩ := Generation.created_eq (congrArg Prod.fst hg)
    exact ⟨capabilities, rfl⟩

theorem confined_create (hs : Sighted kind)
    (hr : Looks part kind fun h => h.files.canonical path.parent) (provider : String)
    (language : Language) (sandbox : Sandbox) :
    Confined part kind (create provider language path sandbox) := by
  refine ((Generation.confined_create hs hr provider language sandbox).map fun created =>
    created.map fun g =>
      (⟨provider, language, path, sandbox, .unloaded, some g⟩ : Context)).of_eq fun h => ?_
  rw [create, createGeneration]
  dsimp only
  rcases Generation.create provider language path.parent sandbox h with ⟨_ | _, host⟩ <;> rfl

/-- A script that does not load defines nothing, so that there is nothing to do when it is closed. -/
theorem silent_of_load_error {c c' : Context} {fresh : Engine} {h h' : Host} {e : PluginError}
    (hg : c.generation = some ⟨fresh, []⟩) (hl : c.load h = (.error e, c', h')) :
    ∀ g, c'.generation = some g → g.entryPoints = [] := by
  intro g hn
  rw [load, hg] at hl
  cases hr : c.readScript h with
  | error fault =>
    rw [hr] at hl
    cases hl
    cases hn
    rfl
  | ok source =>
    rw [hr] at hl
    dsimp only at hl
    rw [Generation.load] at hl
    rcases hf : fresh.load source c.scriptPath.lastName h with ⟨_ | _, engine, host⟩
    · rw [hf] at hl
      cases hl
      cases hn
      rfl
    · rw [hf] at hl
      cases hl

/-- Loads the script of a context, which is closed again if it does not load. -/
def opened (c : Context) (h : Host) : Except PluginError Context × Host :=
  match c.load h with
  | (.ok (), c, h) => (.ok c, h)
  | (.error e, c, h) => (.error e, (c.close h).2)

theorem confined_opened (hs : Sighted kind) {c : Context} {fresh : Engine}
    (hg : c.generation = some ⟨fresh, []⟩)
    (ht : Looks part kind fun h => h.files.readText c.scriptPath)
    (hl : ∀ h source, kind h → h.files.readText c.scriptPath = .ok source →
      Confined part kind (paired (fresh.load source c.scriptPath.lastName))) :
    Confined part kind c.opened := by
  have hload : Confined part kind (paired c.load) := by
    refine confined_load ht fun h source g hk hr hg' => ?_
    cases hg.symm.trans hg'
    refine ((hl h source hk hr).map fun loaded => ((loaded.1,
      match loaded.1 with
      | .ok () => ⟨loaded.2, loaded.2.entryPoints⟩
      | .error _ => ⟨loaded.2, []⟩) : Except PluginError Unit × Generation)).of_eq fun h => ?_
    rw [paired, Generation.load, paired]
    rcases fresh.load source c.scriptPath.lastName h with ⟨_ | _, _, _⟩ <;> rfl
  refine (@Confined.bind part _ _ kind _ (fun loaded h =>
    match loaded.1 with
    | .ok () => (Except.ok loaded.2, h)
    | .error e => (.error e, (loaded.2.close h).2)) hload fun h _ => ?_).of_eq fun h => ?_
  · rw [paired]
    rcases hr : c.load h with ⟨e | _, c', host⟩
    · have hsilent := silent_of_load_error hg hr
      have hclose : Confined part kind c'.close := by
        refine confined_close hs fun g hn hd => ?_
        rw [Generation.defines, hsilent g hn] at hd
        cases hd
      exact hclose.map fun _ => Except.error e
    · exact .done (Except.ok c')
  · rw [opened, paired]
    rcases c.load h with ⟨_ | _, c', host⟩ <;> rfl

/-- Opening a context looks for its directory and its script, and else comes upon what the script
asks for while it is loaded. -/
theorem confined_createLoaded (hs : Sighted kind)
    (hr : Looks part kind fun h => h.files.canonical path.parent)
    (ht : Looks part kind fun h => h.files.readText path)
    (hl : ∀ h source capabilities, kind h → h.files.readText path = .ok source →
      Confined part kind (paired (Engine.load source path.lastName ⟨capabilities, none, false⟩)))
    (provider : String) (language : Language) (sandbox : Sandbox) :
    Confined part kind (createLoaded provider language path sandbox) := by
  refine (@Confined.bind part _ _ kind _ (fun created h =>
    match created with
    | .error e => (.error e, h)
    | .ok c => c.opened h)
    (confined_create hs hr provider language sandbox) fun h _ => ?_).of_eq fun h => ?_
  · cases hc : (create provider language path sandbox h).1 with
    | error e => exact .done (Except.error e)
    | ok c =>
      obtain ⟨capabilities, rfl⟩ := created_eq hc
      exact confined_opened hs rfl ht fun h source => hl h source capabilities
  · rw [createLoaded]
    rcases create provider language path sandbox h with ⟨_ | _, host⟩ <;> rfl

/-- Calls an entry point, if the script defines it, and closes the context. -/
def answering (entryPoint : String) (args : List Value) (c : Context) (h : Host) :
    Except PluginError (Option Value) × Host :=
  if c.defines entryPoint then
    match c.call entryPoint args h with
    | (result, c, h) => (result.map some, (c.close h).2)
  else (.ok none, (c.close h).2)

end Context

namespace Plugin

variable {p : Plugin}

theorem confined_ofManifest {manifest : Manifest} {directory : Path}
    (hc : Confined part kind (Context.createLoaded manifest.name manifest.language
      (manifest.scriptPath directory) manifest.sandbox)) :
    Confined part kind (ofManifest manifest directory) := by
  refine (hc.map fun created => created.map fun c =>
    (⟨manifest, directory, c, none⟩ : Plugin)).of_eq fun h => ?_
  unfold ofManifest
  rcases Context.createLoaded manifest.name manifest.language (manifest.scriptPath directory)
    manifest.sandbox h with ⟨_ | _, host⟩ <;> rfl

theorem confined_askAside {entryPoint : String} {args : List Value}
    (hc : Confined part kind (Context.createLoaded p.name p.manifest.language p.scriptPath
      p.manifest.sandbox))
    (ha : ∀ h c, kind h → (Context.createLoaded p.name p.manifest.language p.scriptPath
      p.manifest.sandbox h).1 = .ok c → Confined part kind (c.answering entryPoint args)) :
    Confined part kind (askAside entryPoint args p) := by
  refine (@Confined.bind part _ _ kind _ (fun created h =>
    match created with
    | .error e => (.error e, h)
    | .ok c => c.answering entryPoint args h) hc fun h hk => ?_).of_eq fun h => ?_
  · cases hr : (Context.createLoaded p.name p.manifest.language p.scriptPath
      p.manifest.sandbox h).1 with
    | error e => exact .done (Except.error e)
    | ok c => exact ha h c hk hr
  · unfold askAside
    rcases Context.createLoaded p.name p.manifest.language p.scriptPath p.manifest.sandbox h with
      ⟨_ | _, host⟩ <;> rfl

end Plugin

namespace Loader

variable {l : Loader} {p : Plugin}

/-- Starts a plugin by what its script has answered about its settings. -/
def configuredBy (l : Loader) (p : Plugin) (answer : Except PluginError (Option Value)) (h : Host) :
    (Except PluginError Readiness × Plugin) × Host :=
  match answer.map fun found => (found.map Schema.ofValue).getD .empty with
  | .error e => ((.error e, p), h)
  | .ok schema =>
    match l.resolve p.manifest schema.defaults with
    | .error e => ((.error (.contract e), p), h)
    | .ok settings =>
      if !l.resolver.hasExplicit p.name && schema.hasRequired then ((.ok .notConfigured, p), h)
      else (((p.start settings h).1.map fun _ => .available, (p.start settings h).2.1),
        (p.start settings h).2.2)

theorem confined_configure
    (ha : Confined part kind (Plugin.askAside Script.EntryPoint.connectionSchema [] p))
    (hst : ∀ settings, Confined part kind (paired (Plugin.start settings p))) (l : Loader) :
    Confined part kind (paired (l.configure p)) := by
  refine (@Confined.bind part _ _ kind _ (l.configuredBy p) ha fun h _ => ?_).of_eq fun h => ?_
  · unfold configuredBy
    cases ((Plugin.askAside Script.EntryPoint.connectionSchema [] p h).1.map fun found =>
      (found.map Schema.ofValue).getD .empty) with
    | error e => exact .done _
    | ok schema =>
      dsimp only
      cases l.resolve p.manifest schema.defaults with
      | error e => exact .done _
      | ok settings =>
        dsimp only
        split
        · exact .done _
        · exact (hst settings).map fun started =>
            ((started.1.map fun _ => Readiness.available), started.2)
  · unfold paired configure configuredBy Plugin.schemaFrom
    rcases Plugin.askAside Script.EntryPoint.connectionSchema [] p h with ⟨e | answer, host⟩
    · rfl
    · dsimp only [Except.map]
      cases l.resolve p.manifest ((answer.map Schema.ofValue).getD .empty).defaults with
      | error e => rfl
      | ok settings =>
        dsimp only
        split
        · rfl
        · rcases p.start settings host with ⟨_ | _, q, host'⟩ <;> rfl

theorem confined_registerNext {name : String}
    (hq : ∀ q, l.standing name = some q → Confined part kind q.context.close) :
    Confined part kind (registerNext name l) := by
  cases hg : Fields.get? name l.registry.entries with
  | none =>
    refine (Confined.done { l with
      registry := ⟨Fields.insert name l.plugins.length l.registry.entries⟩ }).of_eq fun h => ?_
    rw [registerNext, Registry.register, hg]
  | some number =>
    cases hp : l.plugins[number]? with
    | none =>
      refine (Confined.done { l with
        registry := ⟨Fields.insert name l.plugins.length l.registry.entries⟩ }).of_eq fun h => ?_
      rw [registerNext, Registry.register, hg]
      dsimp only
      rw [closePlugin, hp]
    | some q =>
      have hstanding : l.standing name = some q := by
        rw [standing, hg]
        exact hp
      refine ((hq q hstanding).map fun context => { l with
        registry := ⟨Fields.insert name l.plugins.length l.registry.entries⟩
        plugins := l.plugins.set number { q with context } }).of_eq fun h => ?_
      rw [registerNext, Registry.register, hg]
      dsimp only
      rw [closePlugin, hp]
      rfl

/-- A configured plugin as one that has been loaded into a loader. -/
def entered (registered : Loader) (c : Except PluginError Readiness × Plugin) : Turn × Loader :=
  (.loaded c.2 (c.1.toOption.getD .error),
    { registered with plugins := registered.plugins ++ [c.2] })

theorem confined_install (hr : Confined part kind (registerNext p.name l))
    (hc : ∀ registered : Loader, Confined part kind (paired (registered.configure p))) :
    Confined part kind (paired (install p l)) := by
  refine (@Confined.bind part _ _ kind _ (fun registered h =>
    (entered registered (paired (registered.configure p) h).1,
      (paired (registered.configure p) h).2)) hr fun h _ => ?_).of_eq fun h => ?_
  · exact (hc (registerNext p.name l h).1).map (entered (registerNext p.name l h).1)
  · unfold paired install configured entered
    rcases registerNext p.name l h with ⟨registered, host⟩
    dsimp only

/-- Installs the plugin that has been opened. -/
def turnWith (l : Loader) (opened : Except PluginError Plugin) (h : Host) : (Turn × Loader) × Host :=
  match opened with
  | .error e => ((.failed e, l), h)
  | .ok p => paired (install p l) h

/-- Opens the plugin of a manifest if its script is there. -/
def turnBy (l : Loader) (manifest : Manifest) (directory : Path) (there : Bool) (h : Host) :
    (Turn × Loader) × Host :=
  if there then
    l.turnWith (Plugin.ofManifest manifest directory h).1
      (Plugin.ofManifest manifest directory h).2
  else ((.passedOver, l), h)

/-- Goes on with a manifest that has been found. -/
def turnFrom (l : Loader) (directory : Path) (found : Except PluginError Manifest) (h : Host) :
    (Turn × Loader) × Host :=
  match found with
  | .error e => ((.failed e, l), h)
  | .ok manifest =>
    l.turnBy manifest directory (h.files.isFile (manifest.scriptPath directory)) h

/-- A turn keeps to a part if the looks do that it takes, and what opening and installing the plugin
of the manifest comes to. -/
theorem confined_turn {directory : Path}
    (hm : Looks part kind fun h => Manifest.load h.files directory)
    (hf : ∀ h manifest, kind h → Manifest.load h.files directory = .ok manifest →
      Looks part kind fun h => h.files.isFile (manifest.scriptPath directory))
    (ho : ∀ h manifest, kind h → Manifest.load h.files directory = .ok manifest →
      Confined part kind (Plugin.ofManifest manifest directory))
    (hi : ∀ h k manifest p, kind h → Manifest.load h.files directory = .ok manifest → kind k →
      (Plugin.ofManifest manifest directory k).1 = .ok p →
      Confined part kind (paired (install p l))) :
    Confined part kind (paired (turn directory l)) := by
  refine (@Looks.follow part _ _ kind _ (l.turnFrom directory) hm fun h hk => ?_).of_eq fun h => ?_
  · cases hl : Manifest.load h.files directory with
    | error e => exact .done (Turn.failed e, l)
    | ok manifest =>
      refine @Looks.follow part _ _ kind _ (l.turnBy manifest directory) (hf h manifest hk hl)
        fun k _ => ?_
      unfold turnBy
      split
      · refine @Confined.bind part _ _ kind _ l.turnWith (ho h manifest hk hl) fun k hkk => ?_
        cases hp : (Plugin.ofManifest manifest directory k).1 with
        | error e => exact .done (Turn.failed e, l)
        | ok p => exact hi h k manifest p hk hl hkk hp
      · exact .done (Turn.passedOver, l)
  · unfold paired turn turnFrom turnBy turnWith
    cases Manifest.load h.files directory with
    | error e => rfl
    | ok manifest =>
      dsimp only
      split
      · rcases Plugin.ofManifest manifest directory h with ⟨_ | _, host⟩ <;> rfl
      · rfl

end Loader

namespace QuietDirectory

variable {files : FileTree} {directory root : Path} {manifest : Manifest} {source : String}
  {m : Script.Module}

theorem confined_createLoaded (hd : QuietDirectory files directory manifest source m root)
    (hr : Looks part (fun h => h.files = files) fun h =>
      h.files.canonical (manifest.scriptPath directory).parent)
    (ht : Looks part (fun h => h.files = files) fun h =>
      h.files.readText (manifest.scriptPath directory)) :
    Confined part (fun h => h.files = files) (Context.createLoaded manifest.name manifest.language
      (manifest.scriptPath directory) manifest.sandbox) := by
  refine Context.confined_createLoaded (sighted_files files) hr ht
    (fun h text capabilities hk hs => ?_) manifest.name manifest.language manifest.sandbox
  rw [hk, hd.script] at hs
  cases hs
  refine (Confined.done (Except.ok (), (⟨capabilities, some m, false⟩ : Engine))).of_eq fun h => ?_
  rw [paired, Script.Engine.load_quiet hd.quiet]

/-- Such a script is closed again at once when it is asked for its schema. -/
theorem confined_schema (hd : QuietDirectory files directory manifest source m root)
    (hcreate : Confined part (fun h => h.files = files) (Context.createLoaded manifest.name
      manifest.language (manifest.scriptPath directory) manifest.sandbox)) :
    Confined part (fun h => h.files = files) (Plugin.askAside Script.EntryPoint.connectionSchema []
      (plugin directory manifest root m)) := by
  refine Plugin.confined_askAside hcreate fun h c hk hc => ?_
  have hdh : QuietDirectory h.files directory manifest source m root := hk.symm ▸ hd
  have hcontext : c = (plugin directory manifest root m).context := by
    have hcreated := congrArg Prod.fst hdh.createLoaded
    exact Except.ok.inj (hc.symm.trans hcreated)
  have hschema : c.defines Script.EntryPoint.connectionSchema = false := hcontext ▸ hd.schema
  have hclose : Confined part (fun h => h.files = files) c.close := by
    refine Context.confined_close (sighted_files files) fun g hg hdefines => ?_
    have hsilent : c.defines Script.EntryPoint.close = false := hcontext ▸ hd.close
    rw [Context.defines_eq hg, hdefines] at hsilent
    cases hsilent
  refine (hclose.map fun _ => (Except.ok none : Except PluginError (Option Value))).of_eq
    fun h => ?_
  rw [Context.answering, hschema, if_neg Bool.false_ne_true]

/-- A script that is not called keeps to what is looked at to find it. -/
theorem confined_turn (hd : QuietDirectory files directory manifest source m root)
    (hstart : m.entryPoints.contains Script.EntryPoint.start = false) {l : Loader}
    (hn : l.standing manifest.name = none)
    (hm : Looks part (fun h => h.files = files) fun h =>
      h.files.readText (Loader.manifestPath directory))
    (hr : Looks part (fun h => h.files = files) fun h =>
      h.files.canonical (manifest.scriptPath directory).parent)
    (hs : Looks part (fun h => h.files = files) fun h =>
      h.files.entryAt (manifest.scriptPath directory)) :
    Confined part (fun h => h.files = files) (paired (l.turn directory)) := by
  have hcreate := hd.confined_createLoaded hr (FileTree.looks_readText hs)
  have hmanifest : ∀ (h : Host) other, h.files = files → Manifest.load h.files directory = .ok other →
      other = manifest := by
    intro h other hk hl
    rw [hk, hd.loads] at hl
    exact (Except.ok.inj hl).symm
  refine Loader.confined_turn ?_ (fun h other hk hl => ?_) (fun h other hk hl => ?_)
    fun h k other p hk hl hkk hp => ?_
  · exact hm.map fun text => ((text.mapError (Manifest.Fault.unreadable ·.message) |>.bind
      Manifest.read).mapError (·.toError (Loader.manifestPath directory).text))
  · cases hmanifest h other hk hl
    exact FileTree.looks_isFile hs
  · cases hmanifest h other hk hl
    exact Plugin.confined_ofManifest hcreate
  · cases hmanifest h other hk hl
    have hdk : QuietDirectory k.files directory manifest source m root := hkk.symm ▸ hd
    rw [hdk.ofManifest] at hp
    obtain rfl : plugin directory manifest root m = p := Except.ok.inj hp
    refine Loader.confined_install (Loader.confined_registerNext fun q hq => ?_)
      (Loader.confined_configure (hd.confined_schema hcreate) fun settings => ?_)
    · exact absurd (hn.symm.trans hq) (Option.some_ne_none q).symm
    · refine (Confined.done (Except.ok (), started directory manifest root m settings)).of_eq
        fun h => ?_
      rw [paired, start hstart]

end QuietDirectory

end TrieFeed
