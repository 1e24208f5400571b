import TrieFeed.Plugin.Basic
/-!
# Watching scripts

A watch knows the script files of plugins, each plugin by its position. When a round of changes has
gone quiet, every plugin with the name of one whose script has changed is reloaded, once. A reload
that fails leaves its plugin as it was and does not affect the others.
-/
namespace TrieFeed

/-- Script files under watch, with the positions of their plugins. -/
structure Watch where
  scripts : List (Path × Nat)
deriving Inhabited

namespace Watch

/-- The directory of a plugin, without links if it can be found. -/
def directoryOf (p : Plugin) (files : FileTree) : Path :=
  (files.canonical p.directory).toOption.getD p.directory

def scriptOf (p : Plugin) (files : FileTree) : Path :=
  (directoryOf p files).join ⟨false, [.name p.scriptPath.lastName]⟩

/-- Puts plugins from a position on under watch; of two with one script file the later counts. -/
def watchFrom (files : FileTree) : Nat → List Plugin → Watch → Except PluginError Watch
  | _, [], w => .ok w
  | position, p :: rest, w =>
    if files.isDirectory (directoryOf p files) then
      let path := scriptOf p files
      watchFrom files (position + 1) rest ⟨w.scripts.filter (·.1 ≠ path) ++ [(path, position)]⟩
    else .error (.watch s!"cannot watch {p.directory.text}")

/-- Watches plugins, whose directories have to exist. -/
def start (plugins : List Plugin) (files : FileTree) : Except PluginError Watch :=
  watchFrom files 0 plugins ⟨[]⟩

def size (w : Watch) : Nat := w.scripts.length

/-- The position of the plugin whose script is at a path, or where the path's links lead. -/
def matching? (w : Watch) (files : FileTree) (path : Path) : Option Nat :=
  (w.scripts.lookup path).or ((files.canonical path).toOption.bind (w.scripts.lookup ·))

/-- The names of the plugins whose scripts are among changed files. -/
def pending (w : Watch) (plugins : List Plugin) (files : FileTree) (changed : List Path) :
    List String :=
  (changed.filterMap (w.matching? files)).filterMap fun position =>
    plugins[position]?.map Plugin.name

/-- Reloads the watched plugins with pending names, in the order of the watch. -/
def reloadPending (names : List String) :
    List (Path × Nat) → List Plugin → Host → List Plugin × Host
  | [], plugins, h => (plugins, h)
  | (_, position) :: rest, plugins, h =>
    match plugins[position]?.filter fun p => names.contains p.name with
    | none => reloadPending names rest plugins h
    | some p =>
      match Plugin.reload p h with
      | (_, p, h) => reloadPending names rest (plugins.set position p) h

/-- Reloads after a round of changes. -/
def round (w : Watch) (changed : List Path) (plugins : List Plugin) (h : Host) :
    List Plugin × Host :=
  reloadPending (w.pending plugins h.files changed) w.scripts plugins h

/-- What a watch is told: that a file was created or changed, or that nothing was for a while. -/
inductive Notice where
  | changed (path : Path)
  | quiet

/-- Hears a notice: the names of plugins whose scripts have changed are gathered until it is quiet,
and then their plugins are reloaded. -/
def hear (w : Watch) (notice : Notice) (gathered : List String) (plugins : List Plugin) (h : Host) :
    List String × List Plugin × Host :=
  match notice with
  | .changed path => (gathered ++ w.pending plugins h.files [path], plugins, h)
  | .quiet => ([], reloadPending gathered w.scripts plugins h)

/-- The text that stands for a watch in diagnostics. -/
def summary (w : Watch) : String :=
  "ReloadWatcher \x7b watched: " ++ toString w.size ++ ", .. \x7d"

end Watch

end TrieFeed
