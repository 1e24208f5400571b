import TrieFeed.Plugin.Watch
import TrieFeed.Proofs.Plugin.Listed
/-!
# Which plugins a watch reloads

A watch finds the plugin whose script has changed by the path, but what it gathers until all is
quiet are names. So a round reloads every plugin with the name of one whose script has changed: that
is the plugin itself and nothing else exactly when no other plugin under watch has its name.
-/
namespace TrieFeed

theorem Plugin.name_reload (p : Plugin) (h : Host) : (p.reload h).2.1.name = p.name := by
  rcases p.reload_cases h with ⟨e, host, hr⟩ | ⟨next, host, -, hr⟩ <;> rw [hr]
  rfl

namespace Watch

variable {w table : Watch} {ps plugins : List Plugin} {files : FileTree} {names : List String}
  {h : Host}

/-! ## Reloading plugins one after another -/

/-- Reloads the plugins at positions. -/
def reloadEach : List Nat → List Plugin → Host → List Plugin × Host
  | [], plugins, h => (plugins, h)
  | position :: rest, plugins, h =>
    match plugins[position]? with
    | none => reloadEach rest plugins h
    | some p => reloadEach rest (plugins.set position (p.reload h).2.1) (p.reload h).2.2

/-- The watched positions at which one of some names stands. -/
def due (names : List String) (scripts : List (Path × Nat)) (known : List String) : List Nat :=
  (scripts.map (·.2)).filter fun position => known[position]?.any names.contains

theorem names_set {position : Nat} {p : Plugin} (hp : plugins[position]? = some p) (h : Host) :
    (plugins.set position (p.reload h).2.1).map Plugin.name = plugins.map Plugin.name := by
  obtain ⟨hlt, rfl⟩ := List.getElem?_eq_some_iff.mp hp
  rw [List.map_set, Plugin.name_reload, ← List.getElem_map Plugin.name (h := by simpa using hlt)]
  exact List.set_getElem_self _

/-- Which plugins are reloaded is settled before the first of them is, and how that goes does not
matter for the others. -/
theorem reloadPending_eq (names : List String) (scripts : List (Path × Nat)) (plugins : List Plugin)
    (h : Host) : reloadPending names scripts plugins h =
      reloadEach (due names scripts (plugins.map Plugin.name)) plugins h := by
  induction scripts generalizing plugins h with
  | nil => rfl
  | cons s rest ih =>
    obtain ⟨path, position⟩ := s
    have hk : (plugins.map Plugin.name)[position]? = plugins[position]?.map Plugin.name :=
      List.getElem?_map ..
    rw [reloadPending, due, List.map_cons, List.filter_cons, hk]
    cases hp : plugins[position]? with
    | none => exact ih plugins h
    | some p =>
      rw [Option.map_some, Option.any_some, Option.filter_some]
      cases hn : names.contains p.name with
      | false => exact ih plugins h
      | true =>
        rw [if_pos rfl, if_pos rfl, reloadEach, hp]
        dsimp only
        rw [ih, names_set hp]
        rfl

/-- Each plugin at one of the positions is reloaded once, and the others stay as they are. -/
theorem getElem?_reloadEach {positions : List Nat} (hn : positions.Nodup) (plugins : List Plugin)
    (h : Host) (i : Nat) :
    (i ∈ positions → ∃ host, (reloadEach positions plugins h).1[i]? =
      plugins[i]?.map fun p => (p.reload host).2.1) ∧
    (i ∉ positions → (reloadEach positions plugins h).1[i]? = plugins[i]?) := by
  induction positions generalizing plugins h with
  | nil => exact ⟨fun hi => absurd hi List.not_mem_nil, fun _ => rfl⟩
  | cons position rest ih =>
    obtain ⟨hnot, hrest⟩ := List.nodup_cons.mp hn
    rw [reloadEach]
    cases hp : plugins[position]? with
    | none =>
      obtain ⟨hin, hout⟩ := ih hrest plugins h
      refine ⟨fun hi => ?_, fun hi => hout fun hr => hi (List.mem_cons_of_mem _ hr)⟩
      rcases List.mem_cons.mp hi with rfl | hi
      · refine ⟨h, ?_⟩
        dsimp only
        rw [hout hnot, hp]
        rfl
      · exact hin hi
    | some p =>
      obtain ⟨hin, hout⟩ := ih hrest (plugins.set position (p.reload h).2.1) (p.reload h).2.2
      obtain ⟨hlt, -⟩ := List.getElem?_eq_some_iff.mp hp
      dsimp only
      refine ⟨fun hi => ?_, fun hi => ?_⟩
      · rcases List.mem_cons.mp hi with rfl | hi
        · refine ⟨h, ?_⟩
          rw [hout hnot, List.getElem?_set_self hlt, hp]
          rfl
        · obtain ⟨host, hh⟩ := hin hi
          have hne : position ≠ i := fun he => hnot (he ▸ hi)
          exact ⟨host, by rw [hh, List.getElem?_set_ne hne]⟩
      · have hne : position ≠ i := fun he => hi (he ▸ List.mem_cons_self)
        rw [hout fun hr => hi (List.mem_cons_of_mem _ hr), List.getElem?_set_ne hne]

/-! ## Scripts under watch -/

/-- A path is the one of a plugin's script. -/
def IsScript (ps : List Plugin) (files : FileTree) (path : Path) (position : Nat) : Prop :=
  ps[position]?.map (scriptOf · files) = some path

/-- A path of a changed file is the one of a plugin's script, or it is none of a script and its
links lead to one. -/
def Points (ps : List Plugin) (files now : FileTree) (path : Path) (position : Nat) : Prop :=
  IsScript ps files path position ∨
    (¬ ∃ other, IsScript ps files path other) ∧
      ∃ real, now.canonical path = .ok real ∧ IsScript ps files real position

theorem join_name_inj {a b : Path} {name other : String}
    (hj : a.join ⟨false, [.name name]⟩ = b.join ⟨false, [.name other]⟩) : a = b := by
  obtain ⟨absolute, parts⟩ := a
  obtain ⟨absolute', parts'⟩ := b
  obtain ⟨habsolute, hparts⟩ := Path.mk.inj hj
  exact congrArg₂ Path.mk habsolute (List.append_inj' hparts rfl).1

theorem directoryOf_eq_of_scriptOf {p q : Plugin} (hs : scriptOf p files = scriptOf q files) :
    directoryOf p files = directoryOf q files := join_name_inj hs

/-- The scripts of plugins in directories of their own are all under watch. -/
theorem scripts_watchFrom {position : Nat} {w₀ : Watch}
    (hw : watchFrom files position ps w₀ = .ok w)
    (hd : (ps.map (directoryOf · files)).Nodup)
    (hnew : ∀ p ∈ ps, ∀ s ∈ w₀.scripts, s.1 ≠ scriptOf p files) :
    w.scripts = w₀.scripts ++ (ps.zipIdx position).map fun e => (scriptOf e.1 files, e.2) := by
  induction ps generalizing position w₀ with
  | nil =>
    cases hw
    exact (List.append_nil _).symm
  | cons p rest ih =>
    rw [watchFrom] at hw
    split at hw
    · rw [List.map_cons, List.nodup_cons] at hd
      have hkept : w₀.scripts.filter (·.1 ≠ scriptOf p files) = w₀.scripts :=
        List.filter_eq_self.mpr fun s hs => decide_eq_true (hnew p List.mem_cons_self s hs)
      dsimp only at hw
      rw [hkept] at hw
      have hrest := ih hw hd.2 (fun q hq s hs => ?_)
      · rw [hrest, List.append_assoc, List.zipIdx_cons, List.map_cons, List.singleton_append]
      · rcases List.mem_append.mp hs with hs | hs
        · exact hnew q (List.mem_cons_of_mem p hq) s hs
        · cases List.mem_singleton.mp hs
          intro he
          exact hd.1 (List.mem_map.mpr ⟨q, hq, (directoryOf_eq_of_scriptOf he).symm⟩)
    · cases hw

/-- A watch of plugins in directories of their own, with its scripts in some order. -/
structure Covers (table : Watch) (ps : List Plugin) (files : FileTree) : Prop where
  apart : (ps.map (directoryOf · files)).Nodup
  scripts : table.scripts.Perm (ps.zipIdx.map fun e => (scriptOf e.1 files, e.2))

theorem covers_of_start (hw : start ps files = .ok w) (hd : (ps.map (directoryOf · files)).Nodup)
    (ht : table.scripts.Perm w.scripts) : table.Covers ps files where
  apart := hd
  scripts := by
    have hs := scripts_watchFrom hw hd fun _ _ _ hs => absurd hs List.not_mem_nil
    rw [List.nil_append] at hs
    exact hs ▸ ht

namespace Covers

variable (hc : table.Covers ps files)

include hc

theorem mem_scripts {path : Path} {position : Nat} :
    (path, position) ∈ table.scripts ↔ IsScript ps files path position := by
  rw [hc.scripts.mem_iff, List.mem_map, IsScript, Option.map_eq_some_iff]
  constructor
  · rintro ⟨⟨p, i⟩, he, hs⟩
    cases hs
    exact ⟨p, List.mem_zipIdx_iff_getElem?.mp he, rfl⟩
  · rintro ⟨p, hp, rfl⟩
    exact ⟨(p, position), List.mem_zipIdx_iff_getElem?.mpr hp, rfl⟩

theorem isScript_unique {path : Path} {i j : Nat} (hi : IsScript ps files path i)
    (hj : IsScript ps files path j) : i = j := by
  obtain ⟨p, hp, hpath⟩ := Option.map_eq_some_iff.mp hi
  obtain ⟨q, hq, hpath'⟩ := Option.map_eq_some_iff.mp hj
  have hdirectory := directoryOf_eq_of_scriptOf (hpath.trans hpath'.symm)
  obtain ⟨hlt, -⟩ := List.getElem?_eq_some_iff.mp hp
  refine (List.getElem?_inj ((List.length_map _).symm ▸ hlt) hc.apart).mp ?_
  rw [List.getElem?_map, List.getElem?_map, hp, hq, Option.map_some, Option.map_some, hdirectory]

/-- The table gives what a path stands for in it. -/
theorem lookup_eq_some {path : Path} {position : Nat} :
    table.scripts.lookup path = some position ↔ IsScript ps files path position := by
  rw [← hc.mem_scripts]
  constructor
  · intro hl
    obtain ⟨before, after, he, -⟩ := List.lookup_eq_some_iff.mp hl
    rw [he]
    exact List.mem_append_right before List.mem_cons_self
  · intro hm
    cases hl : table.scripts.lookup path with
    | none =>
      have hne := List.lookup_eq_none_iff.mp hl (path, position) hm
      exact absurd hne (by simp)
    | some other =>
      obtain ⟨before, after, he, -⟩ := List.lookup_eq_some_iff.mp hl
      have hother : (path, other) ∈ table.scripts := by
        rw [he]
        exact List.mem_append_right before List.mem_cons_self
      rw [hc.isScript_unique (hc.mem_scripts.mp hother) (hc.mem_scripts.mp hm)]

theorem matching?_eq_some {now : FileTree} {path : Path} {position : Nat} :
    table.matching? now path = some position ↔ Points ps files now path position := by
  rw [matching?, Points, Option.or_eq_some_iff, hc.lookup_eq_some]
  refine or_congr_right (and_congr ?_ ?_)
  · rw [Option.eq_none_iff_forall_ne_some, not_exists]
    exact forall_congr' fun other => not_congr hc.lookup_eq_some
  · rw [Option.bind_eq_some_iff]
    refine exists_congr fun real => and_congr ?_ hc.lookup_eq_some
    cases now.canonical path <;> simp [Except.toOption]

theorem positions : (table.scripts.map (·.2)).Perm (List.range ps.length) := by
  have hp := hc.scripts.map (·.2)
  rw [List.map_map] at hp
  rw [List.range_eq_range', ← List.zipIdx_map_snd]
  exact hp

theorem nodup_due (names known : List String) : (due names table.scripts known).Nodup :=
  (hc.positions.nodup_iff.mpr List.nodup_range).filter _

theorem mem_due {position : Nat} : position ∈ due names table.scripts (ps.map Plugin.name) ↔
    ∃ name ∈ names, (ps.map Plugin.name)[position]? = some name := by
  rw [due, List.mem_filter, hc.positions.mem_iff, List.mem_range, ← List.length_map Plugin.name]
  constructor
  · rintro ⟨hlt, ha⟩
    rw [List.getElem?_eq_getElem hlt, Option.any_some, List.contains_iff_mem] at ha
    exact ⟨_, ha, List.getElem?_eq_getElem hlt⟩
  · rintro ⟨name, hn, hk⟩
    obtain ⟨hlt, -⟩ := List.getElem?_eq_some_iff.mp hk
    rw [hk, Option.any_some, List.contains_iff_mem]
    exact ⟨hlt, hn⟩

end Covers

/-! ## Rounds -/

/-- A notice, with the plugins and the host as they are then. -/
structure Moment where
  notice : Notice
  plugins : List Plugin
  host : Host

/-- The names gathered after moments. -/
def gather (w : Watch) : List Moment → List String → List String
  | [], gathered => gathered
  | m :: rest, gathered => w.gather rest (w.hear m.notice gathered m.plugins m.host).1

theorem gather_append (w : Watch) (before after : List Moment) (gathered : List String) :
    w.gather (before ++ after) gathered = w.gather after (w.gather before gathered) := by
  induction before generalizing gathered with
  | nil => rfl
  | cons m rest ih => exact ih _

/-- Changes since the watch was at rest, until it is quiet. The plugins under watch may do anything
in between, but keep their names. -/
structure Round (ps : List Plugin) where
  before : List Moment
  changes : List Moment
  /-- The plugins when it is quiet. -/
  plugins : List Plugin
  host : Host
  rested : ∀ m ∈ before.getLast?, m.notice = .quiet
  changed : ∀ m ∈ changes, ∃ path, m.notice = .changed path
  named : ∀ m ∈ before ++ changes, m.plugins.map Plugin.name = ps.map Plugin.name
  namedLast : plugins.map Plugin.name = ps.map Plugin.name

namespace Round

variable (r : Round ps)

/-- The names gathered when it is quiet. -/
def gathered (w : Watch) : List String := w.gather (r.before ++ r.changes) []

/-- The positions of the plugins that are then reloaded. -/
def reloaded (w : Watch) : List Nat := due (r.gathered w) w.scripts (ps.map Plugin.name)

/-- The plugins and the host after that. -/
def outcome (w : Watch) : List Plugin × Host :=
  (w.hear .quiet (r.gathered w) r.plugins r.host).2

/-- One of the changes of the round is to the script of a plugin. -/
def Touches (files : FileTree) (position : Nat) : Prop :=
  ∃ m ∈ r.changes, ∃ path, m.notice = .changed path ∧ Points ps files m.host.files path position

theorem outcome_eq (w : Watch) : r.outcome w = reloadEach (r.reloaded w) r.plugins r.host := by
  rw [outcome, hear, reloadPending_eq, r.namedLast]
  rfl

/-- Changes that come while the plugins and the host stay as they are. -/
def together (ps : List Plugin) (changed : List Path) (h : Host) : Round ps where
  before := []
  changes := changed.map fun path => ⟨.changed path, ps, h⟩
  plugins := ps
  host := h
  rested m hm := absurd hm (by simp)
  changed m hm := by
    obtain ⟨path, -, rfl⟩ := List.mem_map.mp hm
    exact ⟨path, rfl⟩
  named m hm := by
    obtain ⟨path, -, rfl⟩ := List.mem_map.mp hm
    rfl
  namedLast := rfl

end Round

/-- Nothing is left over from the rounds before. -/
theorem gather_rested {before : List Moment} (hr : ∀ m ∈ before.getLast?, m.notice = .quiet) :
    w.gather before [] = [] := by
  rcases List.eq_nil_or_concat before with rfl | ⟨earlier, m, rfl⟩
  · rfl
  · have hq : m.notice = .quiet := hr m (by simp)
    rw [List.concat_eq_append, gather_append, gather, hq]
    rfl

/-- What a single change adds. -/
theorem mem_pending {now : FileTree} {path : Path} {name : String} :
    name ∈ w.pending plugins now [path] ↔
      ∃ position, w.matching? now path = some position ∧
        (plugins.map Plugin.name)[position]? = some name := by
  rw [pending, List.mem_filterMap]
  simp only [List.getElem?_map]
  refine exists_congr fun position => and_congr_left fun _ => ?_
  rw [List.mem_filterMap]
  simp

theorem mem_gather {changes : List Moment} (hch : ∀ m ∈ changes, ∃ path, m.notice = .changed path)
    {gathered : List String} {name : String} :
    name ∈ w.gather changes gathered ↔ name ∈ gathered ∨
      ∃ m ∈ changes, ∃ path, m.notice = .changed path ∧
        ∃ position, w.matching? m.host.files path = some position ∧
          (m.plugins.map Plugin.name)[position]? = some name := by
  induction changes generalizing gathered with
  | nil => simp [gather]
  | cons m rest ih =>
    obtain ⟨path, hp⟩ := hch m List.mem_cons_self
    rw [gather, ih fun m hm => hch m (List.mem_cons_of_mem _ hm), hp, hear, List.mem_append,
      mem_pending, or_assoc, List.exists_mem_cons_iff, hp]
    simp only [Notice.changed.injEq, exists_eq_left']

theorem gather_together (w : Watch) (changed : List Path) (ps : List Plugin) (h : Host)
    (gathered : List String) :
    w.gather (changed.map fun path => ⟨.changed path, ps, h⟩) gathered =
      gathered ++ w.pending ps h.files changed := by
  induction changed generalizing gathered with
  | nil => exact (List.append_nil _).symm
  | cons path rest ih =>
    have hp : w.pending ps h.files (path :: rest) =
        w.pending ps h.files [path] ++ w.pending ps h.files rest := by
      rw [pending, ← List.singleton_append, List.filterMap_append, List.filterMap_append]
      rfl
    rw [List.map_cons, gather, ih, hear, List.append_assoc, hp]

/-- Hearing of changes one by one and then of quiet is a round of all of them. -/
theorem outcome_together (w : Watch) (changed : List Path) (ps : List Plugin) (h : Host) :
    (Round.together ps changed h).outcome w = w.round changed ps h := by
  have hg : (Round.together ps changed h).gathered w = w.pending ps h.files changed :=
    (gather_together w changed ps h []).trans (List.nil_append _)
  rw [Round.outcome, hg]
  rfl

/-! ## Who is reloaded -/

/-- Two positions have plugins of one name. -/
def Namesakes (ps : List Plugin) (i j : Nat) : Prop :=
  ∃ name, (ps.map Plugin.name)[i]? = some name ∧ (ps.map Plugin.name)[j]? = some name

namespace Covers

variable (hc : table.Covers ps files)

include hc

theorem mem_gathered (r : Round ps) {name : String} : name ∈ r.gathered table ↔
    ∃ position, r.Touches files position ∧ (ps.map Plugin.name)[position]? = some name := by
  rw [Round.gathered, gather_append, gather_rested r.rested, mem_gather r.changed]
  constructor
  · rintro (hn | ⟨m, hm, path, hp, position, hmatch, hname⟩)
    · exact absurd hn List.not_mem_nil
    · rw [r.named m (List.mem_append_right _ hm)] at hname
      exact ⟨position, ⟨m, hm, path, hp, hc.matching?_eq_some.mp hmatch⟩, hname⟩
  · rintro ⟨position, ⟨m, hm, path, hp, hpoints⟩, hname⟩
    rw [← r.named m (List.mem_append_right _ hm)] at hname
    exact .inr ⟨m, hm, path, hp, position, hc.matching?_eq_some.mpr hpoints, hname⟩

theorem mem_reloaded (r : Round ps) {i : Nat} :
    i ∈ r.reloaded table ↔ ∃ j, r.Touches files j ∧ Namesakes ps j i := by
  rw [Round.reloaded, hc.mem_due]
  constructor
  · rintro ⟨name, hn, hi⟩
    obtain ⟨j, ht, hj⟩ := (hc.mem_gathered r).mp hn
    exact ⟨j, ht, name, hj, hi⟩
  · rintro ⟨j, ht, name, hj, hi⟩
    exact ⟨name, (hc.mem_gathered r).mpr ⟨j, ht, hj⟩, hi⟩

/-- A change of one script touches no other. -/
theorem touches_together {path : Path} {i j : Nat} (hj : IsScript ps files path j) (h : Host) :
    (Round.together ps [path] h).Touches files i ↔ i = j := by
  constructor
  · rintro ⟨m, hm, other, hp, hpoints⟩
    cases List.mem_singleton.mp hm
    cases hp
    rcases hpoints with hi | ⟨hnone, -⟩
    · exact hc.isScript_unique hi hj
    · exact absurd ⟨j, hj⟩ hnone
  · rintro rfl
    exact ⟨_, List.mem_singleton_self _, path, rfl, .inl hj⟩

/-- A plugin is reloaded in exactly the rounds that touch its script if and only if no other one has
its name. -/
theorem reloaded_iff_touched {i : Nat} (hi : i < ps.length) :
    (∀ r : Round ps, i ∈ r.reloaded table ↔ r.Touches files i) ↔ ∀ j, Namesakes ps j i → j = i := by
  constructor
  · rintro hr j ⟨name, hj, hn⟩
    rw [List.getElem?_map] at hj
    obtain ⟨p, hp, -⟩ := Option.map_eq_some_iff.mp hj
    have hscript : IsScript ps files (scriptOf p files) j := by rw [IsScript, hp, Option.map_some]
    -- the only change is to the script of the other one
    have ht := hc.touches_together (i := j) hscript (.ofFiles files)
    rw [← List.getElem?_map] at hj
    have hreloaded := (hc.mem_reloaded (Round.together ps [scriptOf p files] (.ofFiles files))).mpr
      ⟨j, ht.mpr rfl, name, hj, hn⟩
    exact ((hc.touches_together hscript _).mp ((hr _).mp hreloaded)).symm
  · intro hu r
    rw [hc.mem_reloaded]
    constructor
    · rintro ⟨j, ht, hn⟩
      exact hu j hn ▸ ht
    · intro ht
      have hname : (ps.map Plugin.name)[i]? = some ps[i].name := by
        rw [List.getElem?_map, List.getElem?_eq_getElem hi, Option.map_some]
      exact ⟨i, ht, ps[i].name, hname, hname⟩

end Covers

/-- In a round the watch reloads, once each and in the order of its table, the plugins with the name
of one whose script has changed, however these reloads turn out, and leaves the others alone. Those
with a name of their own are the ones that are reloaded exactly when their script has changed. -/
theorem reloads_by_name (hw : start ps files = .ok w)
    (hd : (ps.map (directoryOf · files)).Nodup) (ht : table.scripts.Perm w.scripts) :
    (∀ r : Round ps, (r.reloaded table).Nodup ∧
      r.outcome table = reloadEach (r.reloaded table) r.plugins r.host ∧
      (∀ i, i ∈ r.reloaded table ↔ ∃ j, r.Touches files j ∧ Namesakes ps j i) ∧
      ∀ i, (i ∈ r.reloaded table → ∃ host, (r.outcome table).1[i]? =
          r.plugins[i]?.map fun p => (p.reload host).2.1) ∧
        (i ∉ r.reloaded table → (r.outcome table).1[i]? = r.plugins[i]?)) ∧
    ∀ i, i < ps.length →
      ((∀ r : Round ps, i ∈ r.reloaded table ↔ r.Touches files i) ↔
        ∀ j, Namesakes ps j i → j = i) := by
  have hc := covers_of_start hw hd ht
  refine ⟨fun r => ?_, fun i hi => hc.reloaded_iff_touched hi⟩
  have hn : (r.reloaded table).Nodup := hc.nodup_due _ _
  refine ⟨hn, r.outcome_eq table, fun i => hc.mem_reloaded r, fun i => ?_⟩
  rw [r.outcome_eq]
  exact getElem?_reloadEach hn r.plugins r.host i

/-! ## Two directories with one name -/

open FileTree (Place.toPath)
open Loader (twin twinTree quiet_twin)

theorem find_twin {name : String} (hn : name ∈ ["a", "b"]) :
    twinTree.find (Place.toPath [name]) = .ok [name] := by
  rcases List.mem_cons.mp hn with rfl | hn
  · exact FileTree.find_place (by decide) (.inl (FileTree.settled_top.snoc (by decide) rfl))
  · cases List.mem_singleton.mp hn
    exact FileTree.find_place (by decide) (.inl (FileTree.settled_top.snoc (by decide) rfl))

theorem directoryOf_twin {name : String} (hn : name ∈ ["a", "b"]) :
    directoryOf (twin name) twinTree = Place.toPath [name] := by
  have hc : twinTree.canonical (twin name).directory = .ok (Place.toPath [name]) :=
    congrArg (Except.map Place.toPath) (find_twin hn)
  rw [directoryOf, hc]
  rfl

theorem isDirectory_twin {name : String} (hn : name ∈ ["a", "b"]) :
    twinTree.isDirectory (directoryOf (twin name) twinTree) := by
  have he : twinTree.entry? [name] = some .directory := by
    revert name
    decide
  exact directoryOf_twin hn ▸ FileTree.isDirectory_of_find (find_twin hn) he

theorem start_twins : ∃ w, start [twin "a", twin "b"] twinTree = .ok w := by
  rw [start, watchFrom, if_pos (isDirectory_twin (by simp)), watchFrom,
    if_pos (isDirectory_twin (by simp))]
  exact ⟨_, rfl⟩

/-- Of two plugins with one name the first is reloaded when only the script of the second has
changed. -/
theorem reloads_by_name_twins : ∃ w, start [twin "a", twin "b"] twinTree = .ok w ∧
    ([twin "a", twin "b"].map (directoryOf · twinTree)).Nodup ∧
    ∃ r : Round [twin "a", twin "b"], r.Touches twinTree 1 ∧ ¬ r.Touches twinTree 0 ∧
      0 ∈ r.reloaded w := by
  obtain ⟨w, hw⟩ := start_twins
  have hd : ([twin "a", twin "b"].map (directoryOf · twinTree)).Nodup := by
    rw [List.map_cons, List.map_singleton, directoryOf_twin (by simp), directoryOf_twin (by simp)]
    decide
  have hc := covers_of_start hw hd (.refl _)
  have hscript : IsScript [twin "a", twin "b"] twinTree (scriptOf (twin "b") twinTree) 1 := rfl
  have ht : ∀ i, (Round.together _ [scriptOf (twin "b") twinTree] (.ofFiles twinTree)).Touches
      twinTree i ↔ i = 1 := fun i => hc.touches_together hscript (.ofFiles twinTree)
  obtain ⟨hr, -⟩ := reloads_by_name hw hd (.refl _)
  refine ⟨w, hw, hd, .together _ [scriptOf (twin "b") twinTree] (.ofFiles twinTree),
    (ht 1).mpr rfl, fun h => Nat.zero_ne_one ((ht 0).mp h), ?_⟩
  exact ((hr _).2.2.1 0).mpr ⟨1, (ht 1).mpr rfl, "p", rfl, rfl⟩

end Watch

end TrieFeed
