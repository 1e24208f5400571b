import TrieFeed.Plugin.Loader
import TrieFeed.Proofs.Files.Tree
import TrieFeed.Proofs.Plugin.Requests
import TrieFeed.Proofs.Plugin.Engines
/-!
# Load passes

A pass gives each directory one turn, in order. A turn loads a plugin, fails or passes the directory
over, and all that it does to the plugins before is to close the one whose name is taken.
-/
namespace TrieFeed

/-- What becomes of a directory in a pass. -/
inductive Turn where
  | loaded (plugin : Plugin) (readiness : Readiness)
  | failed (error : PluginError)
  | passedOver

namespace Turn

def readiness? : Turn → Option Readiness
  | .loaded _ readiness => some readiness
  | _ => none

def plugin? : Turn → Option Plugin
  | .loaded plugin _ => some plugin
  | _ => none

def error? : Turn → Option PluginError
  | .failed error => some error
  | _ => none

/-- How the plugins turned out that were loaded. -/
def readinesses (turns : List (Path × Turn)) : List Readiness := turns.filterMap (·.2.readiness?)

theorem readinesses_cons (directory : Path) (t : Turn) (rest : List (Path × Turn)) :
    readinesses ((directory, t) :: rest) = t.readiness?.toList ++ readinesses rest := by
  cases t <;> rfl

end Turn

/-- The summary of turns, of which the loaded ones are numbered in order. -/
def LoadSummary.ofTurns (first : Nat) (turns : List (Path × Turn)) : LoadSummary where
  loaded := ((Turn.readinesses turns).zipIdx first).map fun (r, n) => ⟨n, r⟩
  failed := turns.filterMap fun (directory, t) => t.error?.map (directory, ·)

namespace Loader

/-! ## Discovery -/

def child (directory : Path) (name : String) : Path := directory.join ⟨false, [.name name]⟩

def manifestPath (directory : Path) : Path := directory.join (Path.read Manifest.fileName)

/-- The directories of these names that hold a manifest. -/
def holding (directory : Path) (files : FileTree) (names : List String) : List Path :=
  (names.map (child directory)).filter fun path => files.isFile (manifestPath path)

theorem discover_of_find {directory : Path} {files : FileTree} {place : Place}
    (hf : files.find directory = .ok place) (hd : files.isDirectory directory) :
    discover directory files = .ok (holding directory files (files.names place)) := by
  rw [discover, hf]
  dsimp only
  rw [if_pos hd]
  rfl

theorem isFile_manifestPath {files : FileTree} {directory : Path} {manifest : Manifest}
    (hm : Manifest.load files directory = .ok manifest) :
    files.isFile (manifestPath directory) = true := by
  have hb := Outcome.mapError_eq_ok.mp hm
  obtain ⟨text, ht, -⟩ := Outcome.bind_eq_ok.mp hb
  obtain ⟨content, hr, -⟩ := FileTree.readText_eq_ok.mp (Outcome.mapError_eq_ok.mp ht)
  change (files.readBytes _).isOk = true
  rw [manifestPath, hr]
  rfl

/-- The configuration of a plugin once its name is registered. -/
def configured (p : Plugin) (l : Loader) (h : Host) : Except PluginError Readiness × Plugin × Host :=
  match registerNext p.name l h with
  | (l, h) => l.configure p h

/-- Registers, configures and keeps a plugin that has just been opened. -/
def install (p : Plugin) (l : Loader) (h : Host) : Turn × Loader × Host :=
  let registered := (registerNext p.name l h).1
  let c := configured p l h
  (.loaded c.2.1 (c.1.toOption.getD .error),
    { registered with plugins := registered.plugins ++ [c.2.1] }, c.2.2)

def turn (directory : Path) (l : Loader) (h : Host) : Turn × Loader × Host :=
  match Manifest.load h.files directory with
  | .error e => (.failed e, l, h)
  | .ok manifest =>
    if h.files.isFile (manifest.scriptPath directory) then
      match Plugin.ofManifest manifest directory h with
      | (.error e, h) => (.failed e, l, h)
      | (.ok p, h) => install p l h
    else (.passedOver, l, h)

/-- The turns of directories, one after another. -/
def turns : List Path → Loader → Host → List (Path × Turn) × Loader × Host
  | [], l, h => ([], l, h)
  | directory :: rest, l, h =>
    match turn directory l h with
    | (t, l, h) =>
      match turns rest l h with
      | (ts, l, h) => ((directory, t) :: ts, l, h)

variable {l : Loader} {h : Host}

theorem turns_cons (directory : Path) (rest : List Path) (l : Loader) (h : Host) :
    turns (directory :: rest) l h =
      ((directory, (turn directory l h).1) ::
          (turns rest (turn directory l h).2.1 (turn directory l h).2.2).1,
        (turns rest (turn directory l h).2.1 (turn directory l h).2.2).2) := by
  rw [turns]

theorem turns_append (before after : List Path) (l : Loader) (h : Host) :
    turns (before ++ after) l h =
      ((turns before l h).1 ++ (turns after (turns before l h).2.1 (turns before l h).2.2).1,
        (turns after (turns before l h).2.1 (turns before l h).2.2).2) := by
  induction before generalizing l h with
  | nil => rfl
  | cons directory rest ih =>
    rw [List.cons_append, turns_cons, turns_cons, ih]
    rfl

theorem install_fst (p : Plugin) (l : Loader) (h : Host) :
    (install p l h).1 =
      .loaded (configured p l h).2.1 ((configured p l h).1.toOption.getD .error) := rfl

theorem turn_cases (directory : Path) (l : Loader) (h : Host) :
    (∃ e, Manifest.load h.files directory = .error e ∧ turn directory l h = (.failed e, l, h)) ∨
    ∃ manifest, Manifest.load h.files directory = .ok manifest ∧
      ((h.files.isFile (manifest.scriptPath directory) = false ∧
          turn directory l h = (.passedOver, l, h)) ∨
        h.files.isFile (manifest.scriptPath directory) = true ∧
          ((∃ e host, Plugin.ofManifest manifest directory h = (.error e, host) ∧
              turn directory l h = (.failed e, l, host)) ∨
            ∃ p host, Plugin.ofManifest manifest directory h = (.ok p, host) ∧
              turn directory l h = install p l host)) := by
  rw [turn]
  cases Manifest.load h.files directory with
  | error e => exact .inl ⟨e, rfl, rfl⟩
  | ok manifest =>
    refine .inr ⟨manifest, rfl, ?_⟩
    dsimp only
    cases h.files.isFile (manifest.scriptPath directory) with
    | false => exact .inl ⟨rfl, rfl⟩
    | true =>
      refine .inr ⟨rfl, ?_⟩
      rw [if_pos rfl]
      rcases Plugin.ofManifest manifest directory h with ⟨e | p, host⟩
      · exact .inl ⟨e, host, rfl, rfl⟩
      · exact .inr ⟨p, host, rfl, rfl⟩

theorem ofManifest_manifest {manifest : Manifest} {directory : Path} {p : Plugin} {h' : Host}
    (ho : Plugin.ofManifest manifest directory h = (.ok p, h')) : p.manifest = manifest := by
  unfold Plugin.ofManifest at ho
  split at ho
  · cases ho
    rfl
  · cases ho

theorem length_registerNext (name : String) (l : Loader) (h : Host) :
    (registerNext name l h).1.plugins.length = l.plugins.length := by
  rw [registerNext, Registry.register]
  cases Fields.get? name l.registry.entries with
  | none => rfl
  | some previous =>
    dsimp only
    rw [closePlugin]
    cases l.plugins[previous]? with
    | none => rfl
    | some p => exact List.length_set

/-- Loading a manifest is what is left of a turn. -/
theorem loadManifest_eq (manifest : Manifest) (directory : Path) (l : Loader) (h : Host) :
    loadManifest manifest directory l h =
      match Plugin.ofManifest manifest directory h with
      | (.error e, h) => (.error e, l, h)
      | (.ok p, h) =>
        (.ok ⟨l.plugins.length, ((install p l h).1.readiness?).getD .error⟩, (install p l h).2) := by
  unfold loadManifest
  rcases ho : Plugin.ofManifest manifest directory h with ⟨e | p, host⟩
  · rfl
  · have hn : manifest.name = p.name := congrArg Manifest.name (ofManifest_manifest ho).symm
    rw [hn, ← length_registerNext p.name l host]
    dsimp only
    unfold install configured
    rcases registerNext p.name l host with ⟨registered, host⟩
    dsimp only
    rcases registered.configure p host with ⟨result, configured, host⟩
    rfl

theorem ofTurns_cons (n : Nat) (directory : Path) (t : Turn) (rest : List (Path × Turn)) :
    LoadSummary.ofTurns n ((directory, t) :: rest) =
      match t with
      | .loaded _ readiness =>
        ⟨⟨n, readiness⟩ :: (LoadSummary.ofTurns (n + 1) rest).loaded,
          (LoadSummary.ofTurns (n + 1) rest).failed⟩
      | .failed e => ⟨(LoadSummary.ofTurns n rest).loaded,
          (directory, e) :: (LoadSummary.ofTurns n rest).failed⟩
      | .passedOver => LoadSummary.ofTurns n rest := by
  cases t <;> rfl

theorem length_install (p : Plugin) (l : Loader) (h : Host) :
    (install p l h).2.1.plugins.length = l.plugins.length + 1 := by
  rw [← length_registerNext p.name l h]
  exact List.length_append

section

-- unfolded, what a manifest leads to is too large to compare
attribute [local irreducible] loadManifest

theorem loadEach_cons (directory : Path) (rest : List Path) (s : LoadSummary) (l : Loader)
    (h : Host) :
    loadEach (directory :: rest) s l h =
      match Manifest.load h.files directory with
      | .error e => loadEach rest { s with failed := s.failed ++ [(directory, e)] } l h
      | .ok manifest =>
        if h.files.isFile (manifest.scriptPath directory) then
          match loadManifest manifest directory l h with
          | (.ok loaded, l, h) => loadEach rest { s with loaded := s.loaded ++ [loaded] } l h
          | (.error e, l, h) => loadEach rest { s with failed := s.failed ++ [(directory, e)] } l h
        else loadEach rest s l h := rfl

end

/-- Loading directories comes to their turns, with the summary of these. -/
theorem loadEach_eq (directories : List Path) (s : LoadSummary) (l : Loader) (h : Host) :
    loadEach directories s l h =
      (⟨s.loaded ++ (LoadSummary.ofTurns l.plugins.length (turns directories l h).1).loaded,
          s.failed ++ (LoadSummary.ofTurns l.plugins.length (turns directories l h).1).failed⟩,
        (turns directories l h).2) := by
  induction directories generalizing s l h with
  | nil =>
    change (s, l, h) = (⟨s.loaded ++ [], s.failed ++ []⟩, l, h)
    rw [List.append_nil, List.append_nil]
  | cons directory rest ih =>
    rcases turn_cases directory l h with ⟨e, hm, ht⟩ | ⟨manifest, hm, ⟨hf, ht⟩ | ⟨hf, hc⟩⟩
    · simp only [loadEach_cons, turns_cons, ofTurns_cons, hm, ht, ih, List.append_assoc]
      rfl
    · simp only [loadEach_cons, turns_cons, ofTurns_cons, hm, hf, ht, ih]
      rfl
    · rcases hc with ⟨e, host, ho, ht⟩ | ⟨p, host, ho, ht⟩
      · simp only [loadEach_cons, turns_cons, ofTurns_cons, loadManifest_eq, hm, hf, ho, ht, ih,
          List.append_assoc]
        rfl
      · simp only [loadEach_cons, turns_cons, ofTurns_cons, loadManifest_eq, hm, hf, ho, ht, ih,
          length_install, install_fst, List.append_assoc]
        rfl

/-- A pass fails exactly when there is no telling the directories, and comes to their turns. -/
theorem loadAll_eq (l : Loader) (h : Host) :
    l.loadAll h =
      match discover l.directory h.files with
      | .error e => (.error e, l, h)
      | .ok directories =>
        (.ok (.ofTurns l.plugins.length (turns directories l h).1), (turns directories l h).2) := by
  rw [loadAll]
  cases discover l.directory h.files with
  | error e => rfl
  | ok directories =>
    dsimp only
    rw [loadEach_eq]
    rfl

/-! ## Names -/

def nameOf? (l : Loader) (number : Nat) : Option String := l.plugins[number]?.map Plugin.name

/-- The plugin of a number is the last one with its name. -/
def Latest (l : Loader) (name : String) (number : Nat) : Prop :=
  l.nameOf? number = some name ∧ ∀ other, l.nameOf? other = some name → other ≤ number

/-- Under each name the last plugin with that name is registered. -/
def Current (l : Loader) : Prop :=
  ∀ name number, Fields.get? name l.registry.entries = some number ↔ l.Latest name number

theorem current_create (directory : Path) (resolver : Resolver) :
    (create directory resolver).Current := by
  intro name number
  constructor
  · intro hg
    cases hg
  · rintro ⟨hn, -⟩
    cases hn

theorem Latest.unique {name : String} {m n : Nat} (hm : l.Latest name m) (hn : l.Latest name n) :
    m = n := Nat.le_antisymm (hn.2 m hm.1) (hm.2 n hn.1)

theorem lt_of_nameOf? {name : String} {number : Nat} (hn : l.nameOf? number = some name) :
    number < l.plugins.length := by
  by_contra hlt
  rw [nameOf?, List.getElem?_eq_none (Nat.le_of_not_lt hlt)] at hn
  cases hn

/-- Registering a name closes the plugin that stands for it, if there is one. -/
theorem registerNext_cases (hc : l.Current) (name : String) (h : Host) :
    ((∀ number, ¬ l.Latest name number) ∧
      registerNext name l h =
        ({ l with registry := ⟨Fields.insert name l.plugins.length l.registry.entries⟩ }, h)) ∨
    ∃ number p, l.Latest name number ∧ l.plugins[number]? = some p ∧
      registerNext name l h =
        ({ l with
          registry := ⟨Fields.insert name l.plugins.length l.registry.entries⟩
          plugins := l.plugins.set number (p.close h).1 }, (p.close h).2) := by
  rw [registerNext, Registry.register]
  cases hg : Fields.get? name l.registry.entries with
  | none =>
    refine .inl ⟨fun number hn => ?_, rfl⟩
    rw [(hc name number).mpr hn] at hg
    cases hg
  | some number =>
    have hn := (hc name number).mp hg
    obtain ⟨p, hp, -⟩ := Option.map_eq_some_iff.mp hn.1
    refine .inr ⟨number, p, hn, hp, ?_⟩
    dsimp only
    rw [closePlugin, hp]

theorem registerNext_settings (name : String) (l : Loader) (h : Host) :
    (registerNext name l h).1.resolver = l.resolver ∧
      (registerNext name l h).1.settingsFault? = l.settingsFault? := by
  rw [registerNext, Registry.register]
  cases Fields.get? name l.registry.entries with
  | none => exact ⟨rfl, rfl⟩
  | some previous =>
    dsimp only
    rw [closePlugin]
    cases l.plugins[previous]? <;> exact ⟨rfl, rfl⟩

theorem resolve_registerNext (name : String) (l : Loader) (h : Host) (manifest : Manifest)
    (defaults : Record) :
    (registerNext name l h).1.resolve manifest defaults = l.resolve manifest defaults := by
  obtain ⟨hr, hf⟩ := registerNext_settings name l h
  rw [resolve, resolve, hr, hf]

theorem getElem?_registerNext_of_not (hc : l.Current) {name : String} {number : Nat}
    (hn : ¬ l.Latest name number) (h : Host) :
    (registerNext name l h).1.plugins[number]? = l.plugins[number]? := by
  rcases registerNext_cases hc name h with ⟨-, hr⟩ | ⟨other, p, ho, -, hr⟩
  · rw [hr]
  · have hne : other ≠ number := by
      rintro rfl
      exact hn ho
    rw [hr]
    exact List.getElem?_set_ne hne

theorem getElem?_registerNext_latest (hc : l.Current) {name : String} {number : Nat} {p : Plugin}
    (hn : l.Latest name number) (hp : l.plugins[number]? = some p) (h : Host) :
    (registerNext name l h).1.plugins[number]? = some (p.close h).1 := by
  rcases registerNext_cases hc name h with ⟨hno, -⟩ | ⟨other, q, ho, hq, hr⟩
  · exact absurd hn (hno number)
  · cases ho.unique hn
    cases hq.symm.trans hp
    rw [hr]
    exact List.getElem?_set_self (List.getElem?_eq_some_iff.mp hp).1

theorem nameOf?_registerNext (hc : l.Current) (name : String) (h : Host) (number : Nat) :
    (registerNext name l h).1.nameOf? number = l.nameOf? number := by
  rw [nameOf?, nameOf?]
  by_cases hn : l.Latest name number
  · obtain ⟨p, hp, -⟩ := Option.map_eq_some_iff.mp hn.1
    rw [getElem?_registerNext_latest hc hn hp, hp]
    rfl
  · rw [getElem?_registerNext_of_not hc hn]

/-! ## Installing -/

/-- What a plugin is configured to: it fails before it is started, waits, or is started. -/
theorem configure_cases (l : Loader) (p : Plugin) (h : Host) :
    (∃ e host, l.configure p h = (.error e, p, host)) ∨
    (∃ host, l.configure p h = (.ok .notConfigured, p, host)) ∨
    ∃ settings host, l.configure p h =
      match p.start settings host with
      | (.ok (), p, h) => (.ok .available, p, h)
      | (.error e, p, h) => (.error e, p, h) := by
  unfold configure Plugin.schemaFrom
  rcases Plugin.askAside Script.EntryPoint.connectionSchema [] p h with ⟨e | answer, host⟩
  · exact .inl ⟨e, host, rfl⟩
  · dsimp only [Except.map]
    split
    · exact .inl ⟨_, host, rfl⟩
    · split
      · exact .inr (.inl ⟨host, rfl⟩)
      · exact .inr (.inr ⟨_, host, rfl⟩)

theorem configure_manifest (l : Loader) (p : Plugin) (h : Host) :
    (l.configure p h).2.1.manifest = p.manifest := by
  rcases configure_cases l p h with ⟨e, host, hr⟩ | ⟨host, hr⟩ | ⟨settings, host, hr⟩
  · rw [hr]
  · rw [hr]
  · have hs := Plugin.start_handedOver settings p host
    rw [hr]
    generalize p.start settings host = started at hs
    cases hs <;> rfl

theorem configured_eq (p : Plugin) (l : Loader) (h : Host) : configured p l h =
    (registerNext p.name l h).1.configure p (registerNext p.name l h).2 := rfl

theorem name_configured (p : Plugin) (l : Loader) (h : Host) :
    (configured p l h).2.1.name = p.name := by
  rw [configured_eq, Plugin.name, configure_manifest, Plugin.name]

theorem getElem?_install_lt {number : Nat} (hn : number < l.plugins.length) (p : Plugin)
    (h : Host) :
    (install p l h).2.1.plugins[number]? = (registerNext p.name l h).1.plugins[number]? := by
  rw [← length_registerNext p.name l h] at hn
  exact List.getElem?_append_left hn

theorem getElem?_install_self (p : Plugin) (l : Loader) (h : Host) :
    (install p l h).2.1.plugins[l.plugins.length]? = some (configured p l h).2.1 := by
  rw [← length_registerNext p.name l h]
  exact List.getElem?_concat_length

theorem plugins_install (p : Plugin) (l : Loader) (h : Host) :
    (install p l h).2.1.plugins =
      (registerNext p.name l h).1.plugins ++ [(configured p l h).2.1] := by
  rw [install]

theorem install_settings (p : Plugin) (l : Loader) (h : Host) :
    (install p l h).2.1.resolver = l.resolver ∧
      (install p l h).2.1.settingsFault? = l.settingsFault? := by
  obtain ⟨hr, hf⟩ := registerNext_settings p.name l h
  rw [install]
  exact ⟨hr, hf⟩

theorem nameOf?_install (hc : l.Current) (p : Plugin) (h : Host) (number : Nat) :
    (install p l h).2.1.nameOf? number =
      if number = l.plugins.length then some p.name else l.nameOf? number := by
  rcases Nat.lt_trichotomy number l.plugins.length with hlt | rfl | hgt
  · rw [if_neg (Nat.ne_of_lt hlt), nameOf?, getElem?_install_lt hlt]
    exact nameOf?_registerNext hc p.name h number
  · rw [if_pos rfl, nameOf?, getElem?_install_self, Option.map_some, name_configured]
  · have hl := length_install p l h
    rw [if_neg (Nat.ne_of_gt hgt), nameOf?, nameOf?, List.getElem?_eq_none (by omega),
      List.getElem?_eq_none (by omega)]

theorem map_name_install (hc : l.Current) (p : Plugin) (h : Host) :
    (install p l h).2.1.plugins.map Plugin.name = l.plugins.map Plugin.name ++ [p.name] := by
  have hregistered : (registerNext p.name l h).1.plugins.map Plugin.name =
      l.plugins.map Plugin.name := by
    refine List.ext_getElem? fun number => ?_
    rw [List.getElem?_map, List.getElem?_map]
    exact nameOf?_registerNext hc p.name h number
  rw [plugins_install, List.map_append, hregistered, List.map_singleton, name_configured]

/-- The plugin that is installed becomes the last one with its name. -/
theorem latest_install (hc : l.Current) (p : Plugin) (h : Host) (name : String) (number : Nat) :
    (install p l h).2.1.Latest name number ↔
      if name = p.name then number = l.plugins.length else l.Latest name number := by
  have hlast := nameOf?_install hc p h l.plugins.length
  rw [if_pos rfl] at hlast
  have hold : ∀ other, other ≠ l.plugins.length →
      (install p l h).2.1.nameOf? other = l.nameOf? other := by
    intro other hne
    rw [nameOf?_install hc, if_neg hne]
  by_cases hn : name = p.name
  · subst hn
    rw [if_pos rfl]
    have hlatest : (install p l h).2.1.Latest p.name l.plugins.length := by
      refine ⟨hlast, fun other ho => ?_⟩
      have hlt := lt_of_nameOf? ho
      rw [length_install] at hlt
      omega
    constructor
    · intro hm
      exact hm.unique hlatest
    · rintro rfl
      exact hlatest
  · rw [if_neg hn]
    have hname : ∀ other,
        (install p l h).2.1.nameOf? other = some name ↔ l.nameOf? other = some name := by
      intro other
      by_cases hne : other = l.plugins.length
      · subst hne
        rw [hlast]
        constructor
        · intro he
          exact absurd (Option.some.inj he).symm hn
        · intro he
          exact absurd (lt_of_nameOf? he) (Nat.lt_irrefl _)
      · rw [hold other hne]
    simp only [Latest, hname]

theorem registry_registerNext (name : String) (l : Loader) (h : Host) :
    (registerNext name l h).1.registry.entries =
      Fields.insert name l.plugins.length l.registry.entries := by
  rw [registerNext, Registry.register]
  cases Fields.get? name l.registry.entries with
  | none => rfl
  | some previous =>
    dsimp only
    rw [closePlugin]
    cases l.plugins[previous]? <;> rfl

theorem current_install (hc : l.Current) (p : Plugin) (h : Host) :
    (install p l h).2.1.Current := by
  intro name number
  rw [latest_install hc]
  change Fields.get? name (registerNext p.name l h).1.registry.entries = _ ↔ _
  rw [registry_registerNext]
  by_cases hn : name = p.name
  · subst hn
    rw [if_pos rfl, Fields.get?_insert_self]
    simp [eq_comm]
  · rw [if_neg hn, Fields.get?_insert_of_ne (Ne.symm hn)]
    exact hc name number

/-- Every turn keeps the last plugin of each name registered. -/
theorem current_turn (hc : l.Current) (directory : Path) (h : Host) :
    (turn directory l h).2.1.Current := by
  rcases turn_cases directory l h with ⟨e, -, ht⟩ | ⟨manifest, -, ⟨-, ht⟩ | ⟨-, ht⟩⟩
  · rw [ht]
    exact hc
  · rw [ht]
    exact hc
  · rcases ht with ⟨e, host, -, ht⟩ | ⟨p, host, -, ht⟩
    · rw [ht]
      exact hc
    · rw [ht]
      exact current_install hc p host

theorem map_name_turn (hc : l.Current) (directory : Path) (h : Host) :
    (turn directory l h).2.1.plugins.map Plugin.name =
      l.plugins.map Plugin.name ++ (turn directory l h).1.plugin?.toList.map Plugin.name := by
  rcases turn_cases directory l h with ⟨e, -, ht⟩ | ⟨manifest, -, ⟨-, ht⟩ | ⟨-, ht⟩⟩
  · rw [ht]
    exact (List.append_nil _).symm
  · rw [ht]
    exact (List.append_nil _).symm
  · rcases ht with ⟨e, host, -, ht⟩ | ⟨p, host, -, ht⟩
    · rw [ht]
      exact (List.append_nil _).symm
    · rw [ht, map_name_install hc, ← name_configured p l host]
      rfl

/-- The plugins that turns load come after the others, whose names they leave as they are. -/
theorem map_name_turns (hc : l.Current) (directories : List Path) (h : Host) :
    (turns directories l h).2.1.plugins.map Plugin.name =
      l.plugins.map Plugin.name ++
        ((turns directories l h).1.filterMap (·.2.plugin?)).map Plugin.name := by
  induction directories generalizing l h with
  | nil => exact (List.append_nil _).symm
  | cons directory rest ih =>
    rw [turns_cons, ih (current_turn hc directory h), map_name_turn hc, List.append_assoc,
      ← List.map_append]
    cases (turn directory l h).1 <;> rfl

end Loader

end TrieFeed
