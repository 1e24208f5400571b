import TrieFeed.Proofs.Plugin.Pass
/-!
# Scripts that load quietly

A script that asks its host for nothing while it is loaded loads in the same way whatever the host
is. A turn with it then comes down to what its start does.
-/
namespace TrieFeed

open Script (Engine Module Program)

/-- A script that loads into a module and asks its host for nothing until then. -/
def Script.Quiet (source : String) (m : Module) : Prop :=
  ∃ program, Program.read? source = some program ∧
    ∀ c h, (Module.load program).run ⟨c, h, .undefined⟩ = (.ok m, ⟨c, h, m.state⟩)

/-- The empty text is a script, which defines nothing. -/
theorem Script.quiet_empty : Script.Quiet "" ⟨[], .null⟩ :=
  ⟨.empty, by cbv, fun _ _ => rfl⟩

theorem Script.Engine.load_quiet {source : String} {m : Module} (hq : Script.Quiet source m)
    (capabilities : Capabilities) (fileName : String) (h : Host) :
    Engine.load source fileName ⟨capabilities, none, false⟩ h =
      (.ok (), ⟨capabilities, some m, false⟩, h) := by
  obtain ⟨program, hp, hm⟩ := hq
  rw [load, if_neg Bool.false_ne_true, hp]
  dsimp only
  rw [runWith, hm]

/-- What a turn finds in a directory with a script that loads quietly, has no schema and does
nothing when it is closed. -/
structure QuietDirectory (files : FileTree) (directory : Path) (manifest : Manifest)
    (source : String) (m : Module) (root : Path) : Prop where
  loads : Manifest.load files directory = .ok manifest
  language : manifest.language = .javascript
  root : files.canonical (manifest.scriptPath directory).parent = .ok root
  script : files.readText (manifest.scriptPath directory) = .ok source
  quiet : Script.Quiet source m
  schema : m.entryPoints.contains Script.EntryPoint.connectionSchema = false
  close : m.entryPoints.contains Script.EntryPoint.close = false

theorem Host.engineEnded_engineStarted (provider : String) (h : Host) :
    (h.engineStarted provider).engineEnded provider = h := by
  rw [engineStarted, engineEnded, List.erase_cons_head]

namespace Context

variable {provider source : String} {path root : Path} {sandbox : Sandbox} {m : Module} {h : Host}

/-- A context that is open, and whose script has not been loaded. -/
def unread (provider : String) (path : Path) (sandbox : Sandbox) : Context :=
  ⟨provider, .javascript, path, sandbox, .unloaded, none⟩

def openCapabilities (provider : String) (sandbox : Sandbox) (root : Path) : Capabilities :=
  ⟨provider, sandbox, true, ⟨root⟩, [], none⟩

/-- The generation of a script that has just been loaded quietly. -/
def quietGeneration (capabilities : Capabilities) (m : Module) : Generation :=
  ⟨⟨capabilities, some m, false⟩, m.entryPoints⟩

theorem createGeneration_unread (hr : h.files.canonical path.parent = .ok root)
    (provider : String) (sandbox : Sandbox) :
    (unread provider path sandbox).createGeneration h =
      (.ok ⟨⟨openCapabilities provider sandbox root, none, false⟩, []⟩,
        h.engineStarted provider) := by
  rw [createGeneration, Generation.create, Capabilities.create, unread, SandboxedFile.ofDirectory,
    hr]
  rfl

theorem readScript_unread (hs : h.files.readText path = .ok source) (provider : String)
    (sandbox : Sandbox) :
    (unread provider path sandbox).readScript (h.engineStarted provider) = .ok source := by
  change (h.files.readText path).mapError _ = _
  rw [hs]
  rfl

theorem load_quiet (hq : Script.Quiet source m) (capabilities : Capabilities) (fileName : String)
    (h : Host) :
    Generation.load source fileName ⟨⟨capabilities, none, false⟩, []⟩ h =
      (.ok (), quietGeneration capabilities m, h) := by
  rw [Generation.load, Engine.load_quiet hq]
  rfl

/-- The context of a script that has just been loaded quietly. -/
def quiet (provider : String) (path : Path) (sandbox : Sandbox) (root : Path) (m : Module) :
    Context :=
  { unread provider path sandbox with
    phase := .loaded
    generation := some (quietGeneration (openCapabilities provider sandbox root) m) }

theorem createLoaded_quiet (hr : h.files.canonical path.parent = .ok root)
    (hs : h.files.readText path = .ok source) (hq : Script.Quiet source m) (provider : String)
    (sandbox : Sandbox) :
    createLoaded provider .javascript path sandbox h =
      (.ok (quiet provider path sandbox root m), h.engineStarted provider) := by
  obtain ⟨c, hc⟩ : ∃ c, c = unread provider path sandbox := ⟨_, rfl⟩
  have hp : c.phase = .unloaded := hc ▸ rfl
  have hn : c.generation = none := hc ▸ rfl
  have hg := createGeneration_unread hr provider sandbox
  have hread := readScript_unread hs provider sandbox
  rw [← hc] at hg hread
  have hloaded := createLoaded_of_load hp hn hg hread
    (load_quiet hq (openCapabilities provider sandbox root) c.scriptPath.lastName
      (h.engineStarted provider))
  rw [hc] at hloaded
  exact hloaded

theorem close_silent {c : Context} (hc : c.defines Script.EntryPoint.close = false) (h : Host) :
    (c.close h).2 = c.generation.elim h fun g => g.stop h := by
  rw [close]
  cases hg : c.generation with
  | none => rfl
  | some g =>
    dsimp only
    rw [← defines_eq hg, hc, if_neg Bool.false_ne_true]
    rfl

end Context

namespace Loader

variable {l : Loader}

/-- No plugin has anything to do when it is closed. -/
def Silent (l : Loader) : Prop :=
  ∀ p ∈ l.plugins, p.context.defines Script.EntryPoint.close = false

/-- Closing plugins that have nothing to do then leaves the files alone. -/
theorem Silent.registerNext (hl : l.Silent) (name : String) (h : Host) :
    (l.registerNext name h).1.Silent ∧ (l.registerNext name h).2.files = h.files := by
  rw [Loader.registerNext, Registry.register]
  cases Fields.get? name l.registry.entries with
  | none => exact ⟨hl, rfl⟩
  | some previous =>
    dsimp only
    rw [closePlugin]
    cases hp : l.plugins[previous]? with
    | none => exact ⟨hl, rfl⟩
    | some p =>
      have hclosed : (p.close h).1.context = { p.context with phase := .closed, generation := none } :=
        p.context.close_generation h
      refine ⟨fun q hq => ?_, ?_⟩
      · rcases List.mem_or_eq_of_mem_set hq with hq | rfl
        · exact hl q hq
        · rw [hclosed]
          rfl
      · change (p.context.close h).2.files = h.files
        rw [Context.close_silent (hl p (List.mem_of_getElem? hp))]
        cases p.context.generation <;> rfl

end Loader

namespace QuietDirectory

variable {files : FileTree} {directory root : Path} {manifest : Manifest} {source : String}
  {m : Module} {h : Host}

/-- The plugin of such a directory when it has just been opened. -/
def plugin (directory : Path) (manifest : Manifest) (root : Path) (m : Module) : Plugin :=
  ⟨manifest, directory,
    .quiet manifest.name (manifest.scriptPath directory) manifest.sandbox root m, none⟩

theorem createLoaded (hd : QuietDirectory h.files directory manifest source m root) :
    Context.createLoaded manifest.name manifest.language (manifest.scriptPath directory)
        manifest.sandbox h =
      (.ok (plugin directory manifest root m).context, h.engineStarted manifest.name) := by
  rw [hd.language]
  exact Context.createLoaded_quiet hd.root hd.script hd.quiet manifest.name manifest.sandbox

theorem ofManifest (hd : QuietDirectory h.files directory manifest source m root) :
    Plugin.ofManifest manifest directory h =
      (.ok (plugin directory manifest root m), h.engineStarted manifest.name) := by
  unfold Plugin.ofManifest
  rw [hd.createLoaded]
  rfl

theorem isFile (hd : QuietDirectory files directory manifest source m root) :
    files.isFile (manifest.scriptPath directory) = true := by
  obtain ⟨content, hr, -⟩ := FileTree.readText_eq_ok.mp hd.script
  rw [FileTree.isFile, hr]
  rfl

theorem turn (hd : QuietDirectory h.files directory manifest source m root) (l : Loader) :
    l.turn directory h =
      l.install (plugin directory manifest root m) (h.engineStarted manifest.name) := by
  unfold Loader.turn
  rw [hd.loads]
  dsimp only
  rw [hd.isFile, if_pos rfl, hd.ofManifest]

theorem schemaFrom (hd : QuietDirectory h.files directory manifest source m root) {p : Plugin}
    (hm : p.manifest = manifest) (hp : p.directory = directory) :
    Plugin.schemaFrom Script.EntryPoint.connectionSchema p h = (.ok .empty, p, h) := by
  have hdefines : (plugin directory manifest root m).context.defines
      Script.EntryPoint.connectionSchema = false := hd.schema
  have hsilent : (plugin directory manifest root m).context.defines
      Script.EntryPoint.close = false := hd.close
  have hclose : ((plugin directory manifest root m).context.close
      (h.engineStarted manifest.name)).2 = h :=
    (Context.close_silent hsilent _).trans (Host.engineEnded_engineStarted ..)
  have hloaded := hd.createLoaded
  rw [← hm, ← hp] at hloaded
  unfold Plugin.schemaFrom Plugin.askAside Plugin.name Plugin.scriptPath
  rw [hloaded]
  dsimp only
  rw [hm, hp, hdefines, if_neg Bool.false_ne_true, hclose]
  rfl

/-- What such a plugin is configured to is up to how it takes the settings of all layers. -/
theorem configure (hd : QuietDirectory h.files directory manifest source m root) {p : Plugin}
    (hm : p.manifest = manifest) (hp : p.directory = directory) (l : Loader) {settings : Record}
    (hs : l.resolve manifest [] = .ok settings) :
    l.configure p h =
      match p.start settings h with
      | (.ok (), p, h) => (.ok .available, p, h)
      | (.error e, p, h) => (.error e, p, h) := by
  unfold Loader.configure
  rw [hd.schemaFrom hm hp]
  dsimp only
  have hdefaults : Schema.empty.defaults = [] := rfl
  have hrequired : Schema.empty.hasRequired = false := rfl
  rw [hdefaults, hm, hs, hrequired, Bool.and_false]
  rfl

/-- The plugin of such a directory once it has been started without a call. -/
def started (directory : Path) (manifest : Manifest) (root : Path) (m : Module)
    (settings : Record) : Plugin :=
  let opened := plugin directory manifest root m
  { opened with
    context := { opened.context with phase := .initialized }
    lastConfig := some settings }

theorem start (hstart : m.entryPoints.contains Script.EntryPoint.start = false)
    (directory : Path) (manifest : Manifest) (root : Path) (settings : Record) (h : Host) :
    (plugin directory manifest root m).start settings h =
      (.ok (), started directory manifest root m settings, h) := by
  have hdefines : (plugin directory manifest root m).context.defines
      Script.EntryPoint.start = false := hstart
  rw [Plugin.start, Plugin.keeping_eq, Plugin.inContext, Context.start_undefined hdefines]
  rfl

/-- A plugin that wants no start is available at once. -/
theorem turn_available (hd : QuietDirectory h.files directory manifest source m root)
    (hstart : m.entryPoints.contains Script.EntryPoint.start = false) {l : Loader}
    {settings : Record} (hs : l.resolve manifest [] = .ok settings) (hl : l.Silent) :
    l.turn directory h =
      (.loaded (started directory manifest root m settings) .available,
        { (l.registerNext manifest.name (h.engineStarted manifest.name)).1 with
          plugins := (l.registerNext manifest.name (h.engineStarted manifest.name)).1.plugins ++
            [started directory manifest root m settings] },
        (l.registerNext manifest.name (h.engineStarted manifest.name)).2) := by
  have hname : (plugin directory manifest root m).name = manifest.name := rfl
  have hf : (l.registerNext manifest.name (h.engineStarted manifest.name)).2.files = h.files :=
    (hl.registerNext manifest.name (h.engineStarted manifest.name)).2
  rw [hd.turn, Loader.install, Loader.configured, hname]
  have hr := Loader.resolve_registerNext manifest.name l (h.engineStarted manifest.name) manifest []
  generalize l.registerNext manifest.name (h.engineStarted manifest.name) = registered at hf hr
  obtain ⟨l', h'⟩ := registered
  rw [← hf] at hd
  have hc : l'.configure (plugin directory manifest root m) h' = _ :=
    hd.configure rfl rfl l' (hr.trans hs)
  rw [start hstart] at hc
  dsimp only
  rw [hc]
  rfl

/-- Such a turn leaves the files and the settings as they were, and nothing to do at the end. -/
theorem turn_silent (hd : QuietDirectory h.files directory manifest source m root)
    (hstart : m.entryPoints.contains Script.EntryPoint.start = false) {l : Loader}
    {settings : Record} (hs : l.resolve manifest [] = .ok settings) (hl : l.Silent) :
    (l.turn directory h).2.1.Silent ∧ (l.turn directory h).2.2.files = h.files ∧
      (l.turn directory h).2.1.resolver = l.resolver ∧
      (l.turn directory h).2.1.settingsFault? = l.settingsFault? := by
  obtain ⟨hsilent, hfiles⟩ := hl.registerNext manifest.name (h.engineStarted manifest.name)
  obtain ⟨hresolver, hfault⟩ :=
    Loader.registerNext_settings manifest.name l (h.engineStarted manifest.name)
  rw [hd.turn_available hstart hs hl]
  refine ⟨fun p hp => ?_, hfiles, hresolver, hfault⟩
  rcases List.mem_append.mp hp with hp | hp
  · exact hsilent p hp
  · cases List.mem_singleton.mp hp
    exact hd.close

/-- Such plugins that want no start are all available after one another's turns. -/
theorem turns_available (hstart : m.entryPoints.contains Script.EntryPoint.start = false)
    {settings : Record} {found : List (Path × Manifest × Path)} {l : Loader}
    (hd : ∀ d ∈ found, QuietDirectory h.files d.1 d.2.1 source m d.2.2)
    (hs : ∀ d ∈ found, l.resolve d.2.1 [] = .ok settings) (hl : l.Silent) :
    (l.turns (found.map (·.1)) h).1 =
      found.map fun d => (d.1, .loaded (started d.1 d.2.1 d.2.2 m settings) .available) := by
  induction found generalizing l h with
  | nil => rfl
  | cons d rest ih =>
    have hfirst := hd d List.mem_cons_self
    have hresolve := hs d List.mem_cons_self
    obtain ⟨hsilent, hfiles, hresolver, hfault⟩ := hfirst.turn_silent hstart hresolve hl
    have hturn := congrArg Prod.fst (hfirst.turn_available hstart hresolve hl)
    have hrest := @ih (l.turn d.1 h).2.2 (l.turn d.1 h).2.1
      (fun e he => hfiles ▸ hd e (List.mem_cons_of_mem d he))
      (fun e he => by
        rw [Loader.resolve, hresolver, hfault]
        exact hs e (List.mem_cons_of_mem d he)) hsilent
    rw [List.map_cons, Loader.turns_cons, hrest, hturn, List.map_cons]

end QuietDirectory

/-! ## Directories in the top one -/

open FileTree (Plain Place.toPath)

variable {files : FileTree} {name : String}

theorem Loader.manifestPath_top (name : String) :
    manifestPath (Place.toPath [name]) = Place.toPath [name, Manifest.fileName] := by
  have hp : Path.read Manifest.fileName = ⟨false, [.name Manifest.fileName]⟩ := by decide
  rw [manifestPath, hp]
  rfl

theorem Manifest.load_top {text : String} {manifest : Manifest}
    (hname : Utf8.size name ≤ FileTree.maxNameSize)
    (hplain : Plain (Place.toPath [name, fileName])) (hd : files.entry? [name] = some .directory)
    (hm : files.entry? [name, fileName] = some (.file (Utf8.encode text)))
    (hread : read text = .ok manifest) : load files (Place.toPath [name]) = .ok manifest := by
  have hsettled : files.Settled [name] := FileTree.settled_top.snoc hname hd
  have htext : files.readText (Place.toPath [name, fileName]) = .ok text :=
    @FileTree.readText_place files [name] fileName text hplain hsettled (by decide) hm
  change (((files.readText (Loader.manifestPath _)).mapError _ |>.bind _).mapError _) = _
  rw [Loader.manifestPath_top, htext]
  change (read text).mapError _ = _
  rw [hread]
  rfl

theorem Manifest.scriptPath_top {manifest : Manifest} (hl : manifest.language = .javascript)
    (name : String) : manifest.scriptPath (Place.toPath [name]) =
      Place.toPath [name, Language.javascript.scriptFile] := by
  have hp : Path.read Language.javascript.scriptFile =
      ⟨false, [.name Language.javascript.scriptFile]⟩ := by decide
  rw [scriptPath, hl, hp]
  rfl

theorem FileTree.isDirectory_top : files.isDirectory (Place.toPath []) = true :=
  isDirectory_of_find find_top rfl

theorem Loader.discover_top {names : List String} (hn : files.names [] = names)
    (hm : ∀ name ∈ names, ∃ manifest, Manifest.load files (Place.toPath [name]) = .ok manifest) :
    discover (Place.toPath []) files = .ok (names.map fun name => Place.toPath [name]) := by
  have hall : ∀ path ∈ names.map fun name => Place.toPath [name],
      files.isFile (manifestPath path) = true := by
    intro path hpath
    obtain ⟨name, hname, rfl⟩ := List.mem_map.mp hpath
    obtain ⟨manifest, hload⟩ := hm name hname
    exact isFile_manifestPath hload
  rw [discover_of_find FileTree.find_top FileTree.isDirectory_top, hn]
  exact congrArg Except.ok (List.filter_eq_self.mpr hall)

/-- A manifest that gives a name and nothing else. -/
def Manifest.plain (name : String) : Manifest :=
  ⟨name, "", "1.0.0", none, .javascript, none, [], none, .default⟩

def Manifest.plainText (name : String) : String := "\x7b\"name\":\"" ++ name ++ "\"\x7d"

/-- A loader of the directories in the top one, which has loaded nothing yet and knows no settings. -/
def Loader.top : Loader := create (Place.toPath []) .empty

theorem Loader.silent_top : top.Silent := fun _ hp => absurd hp List.not_mem_nil

theorem Loader.resolve_top (name : String) : top.resolve (.plain name) [] = .ok [] := by
  rw [resolve]
  rfl

namespace QuietDirectory

variable {manifest : Manifest} {source text : String} {m : Module}

theorem of_script (hname : Utf8.size name ≤ FileTree.maxNameSize)
    (hplain : ∀ place ∈ [[name], [name, Manifest.fileName]], Plain (Place.toPath place))
    (hd : files.entry? [name] = some .directory)
    (hm : files.entry? [name, Manifest.fileName] = some (.file (Utf8.encode text)))
    (hread : Manifest.read text = .ok manifest) (hlanguage : manifest.language = .javascript)
    (hs : files.readText (Place.toPath [name, Language.javascript.scriptFile]) = .ok source)
    (hquiet : Script.Quiet source m)
    (hschema : m.entryPoints.contains Script.EntryPoint.connectionSchema = false)
    (hclose : m.entryPoints.contains Script.EntryPoint.close = false) :
    QuietDirectory files (Place.toPath [name]) manifest source m (Place.toPath [name]) := by
  have hsettled : files.Settled [name] := FileTree.settled_top.snoc hname hd
  have hscript := Manifest.scriptPath_top hlanguage name
  constructor
  · exact Manifest.load_top hname (hplain _ (by simp)) hd hm hread
  · exact hlanguage
  · have hparent : (manifest.scriptPath (Place.toPath [name])).parent = Place.toPath [name] := by
      rw [hscript]
      rfl
    rw [hparent, FileTree.canonical, FileTree.find_place (hplain _ (by simp)) (.inl hsettled)]
    rfl
  · rw [hscript]
    exact hs
  · exact hquiet
  · exact hschema
  · exact hclose

/-- A directory with the texts of a manifest and of a script that loads quietly. -/
theorem of_entries (hname : Utf8.size name ≤ FileTree.maxNameSize)
    (hplain : ∀ place ∈ [[name], [name, Manifest.fileName], [name, Language.javascript.scriptFile]],
      Plain (Place.toPath place))
    (hd : files.entry? [name] = some .directory)
    (hm : files.entry? [name, Manifest.fileName] = some (.file (Utf8.encode text)))
    (hs : files.entry? [name, Language.javascript.scriptFile] =
      some (.file (Utf8.encode source)))
    (hread : Manifest.read text = .ok manifest) (hlanguage : manifest.language = .javascript)
    (hquiet : Script.Quiet source m)
    (hschema : m.entryPoints.contains Script.EntryPoint.connectionSchema = false)
    (hclose : m.entryPoints.contains Script.EntryPoint.close = false) :
    QuietDirectory files (Place.toPath [name]) manifest source m (Place.toPath [name]) := by
  have hsettled : files.Settled [name] := FileTree.settled_top.snoc hname hd
  have htext : files.readText (Place.toPath [name, Language.javascript.scriptFile]) = .ok source :=
    @FileTree.readText_place files [name] Language.javascript.scriptFile source
      (hplain _ (by simp)) hsettled (by decide) hs
  exact of_script hname (fun place hp => hplain place (List.mem_append_left [_] hp)) hd hm hread
    hlanguage htext hquiet hschema hclose

end QuietDirectory

end TrieFeed
