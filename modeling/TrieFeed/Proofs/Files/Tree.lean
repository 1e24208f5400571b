import Mathlib.Data.List.Induction
import TrieFeed.Files.Tree
import TrieFeed.Proofs.Outcome
import TrieFeed.Proofs.Text.Utf8
/-!
# Where lookups lead

The place that a lookup ends at has no links above it, so its own path leads there and nowhere else.
Lookups ask a tree for directories and links only, never for what files hold.
-/
namespace TrieFeed

attribute [ext] FileTree

/-- An entry without what it holds. -/
def FileEntry.bare : FileEntry → FileEntry
  | .file _ => .file []
  | entry => entry

namespace FileTree

/-! ## Places without links -/

/-- Every name on the way down to a place, the last one included, is that of a directory. -/
def Settled (tree : FileTree) (place : Place) : Prop :=
  ∀ above name below, place = above ++ name :: below →
    Utf8.size name ≤ maxNameSize ∧ tree.entry? (above ++ [name]) = some .directory

/-- A directory that links do not lead to, or a file in one. -/
def Reached (tree : FileTree) (place : Place) : Prop :=
  tree.Settled place ∨ ∃ above name content, place = above ++ [name] ∧ tree.Settled above ∧
    Utf8.size name ≤ maxNameSize ∧ tree.entry? place = some (.file content)

variable {tree : FileTree}

theorem settled_top : tree.Settled [] := by
  intro above name below h
  simp at h

theorem Settled.above {above below : Place} (h : tree.Settled (above ++ below)) :
    tree.Settled above := by
  intro a name b he
  exact h a name (b ++ below) (by rw [he, List.append_assoc]; rfl)

theorem Settled.dropLast {place : Place} (h : tree.Settled place) :
    tree.Settled place.dropLast := by
  cases place using List.reverseRecOn with
  | nil => exact h
  | append_singleton place name _ =>
    rw [List.dropLast_concat]
    exact h.above

theorem Settled.snoc {place : Place} {name : String} (h : tree.Settled place)
    (hs : Utf8.size name ≤ maxNameSize)
    (he : tree.entry? (place ++ [name]) = some .directory) : tree.Settled (place ++ [name]) := by
  intro above last below hp
  cases below using List.reverseRecOn with
  | nil =>
    obtain ⟨rfl, hn⟩ := List.append_inj' hp rfl
    cases hn
    exact ⟨hs, he⟩
  | append_singleton below end_ _ =>
    rw [← List.cons_append, ← List.append_assoc] at hp
    obtain ⟨rfl, -⟩ := List.append_inj' hp rfl
    exact h above last below rfl

theorem walk_reached (links : Nat) (place : Place) (parts : List Path.Part) {final : Place}
    (hs : tree.Settled place) (h : tree.walk links place parts = .ok final) :
    tree.Reached final := by
  fun_induction walk tree links place parts with
  | case1 links place => cases h; exact .inl hs
  | case2 links place rest ih => exact ih hs h
  | case3 links place rest ih => exact ih hs.dropLast h
  | case6 links place n rest hn he ih => exact ih (hs.snoc (Nat.not_lt.mp hn) he) h
  | case7 links place n rest hn content he hr =>
    cases h
    exact .inr ⟨place, n, content, rfl, hs, Nat.not_lt.mp hn, he⟩
  | case10 place n rest hn target he path links ih =>
    apply ih _ h
    split
    · exact settled_top
    · exact hs
  | _ => cases h

theorem walk_settled (links : Nat) (above below : Place) (rest : List Path.Part)
    (h : tree.Settled (above ++ below)) :
    tree.walk links above (below.map .name ++ rest) = tree.walk links (above ++ below) rest := by
  induction below generalizing above with
  | nil => rw [List.append_nil]; rfl
  | cons name below ih =>
    obtain ⟨hs, he⟩ := h above name below rfl
    rw [List.map_cons, List.cons_append, walk, if_neg (Nat.not_lt.mpr hs), he]
    simp only
    rw [ih (above ++ [name]) (by rwa [List.append_assoc]), List.append_assoc]
    rfl

/-- The path of a place that a lookup ended at leads to it again. -/
theorem walk_place (links : Nat) {place : Place} (h : tree.Reached place) :
    tree.walk links [] (place.map .name) = .ok place := by
  rcases h with h | ⟨above, name, content, rfl, h, hs, he⟩
  · rw [← List.append_nil (place.map _), walk_settled links [] place [] h, walk]
    rfl
  · rw [List.map_append, walk_settled links [] above _ h, List.nil_append, List.map_singleton,
      walk, if_neg (Nat.not_lt.mpr hs), he]
    simp

theorem walk_of_find {path : Path} {place : Place} (h : tree.find path = .ok place) :
    tree.walk maxLinks (if path.absolute then [] else tree.working) path.parts = .ok place := by
  simp only [find] at h
  split at h
  · cases h
  split at h
  · cases h
  split at h
  · cases h
  · exact h

theorem find_reached {path : Path} {place : Place} (ha : path.absolute)
    (h : tree.find path = .ok place) : tree.Reached place := by
  have hw := walk_of_find h
  rw [if_pos ha] at hw
  exact walk_reached _ _ _ settled_top hw

/-- What a place's own path leads to, if anything, is that place. -/
theorem find_toPath {place final : Place} (h : tree.Reached place)
    (hf : tree.find (Place.toPath place) = .ok final) : final = place := by
  have hw : tree.walk maxLinks [] (place.map .name) = .ok final := walk_of_find hf
  rw [walk_place maxLinks h] at hw
  cases hw
  rfl

theorem readBytes_eq_ok {path : Path} {content : Bytes} :
    tree.readBytes path = .ok content ↔
      ∃ place, tree.find path = .ok place ∧ tree.entry? place = some (.file content) := by
  simp only [readBytes, entryAt, Outcome.bind_eq_ok]
  constructor
  · rintro ⟨entry, ⟨place, hf, he⟩, hc⟩
    refine ⟨place, hf, ?_⟩
    split at he
    · rename_i found hp
      cases he
      cases entry with
      | file c => cases hc; exact hp
      | directory | link => cases hc
    · cases he
  · rintro ⟨place, hf, he⟩
    exact ⟨.file content, ⟨place, hf, by rw [he]⟩, rfl⟩

theorem readText_eq_ok {path : Path} {text : String} :
    tree.readText path = .ok text ↔
      ∃ content, tree.readBytes path = .ok content ∧ Utf8.decode? content = some text := by
  simp only [readText, Outcome.bind_eq_ok]
  refine exists_congr fun content => and_congr_right fun _ => ?_
  cases Utf8.decode? content <;> simp

/-- A path that no lookup refuses for its text alone. -/
def Plain (path : Path) : Prop :=
  path.text.isEmpty = false ∧ path.text.toList.contains '\x00' = false ∧
    Utf8.size path.text ≤ maxPathSize

instance : DecidablePred Plain := fun _ => inferInstanceAs (Decidable (_ ∧ _ ∧ _))

theorem find_of_plain {path : Path} (hp : Plain path) :
    tree.find path =
      tree.walk maxLinks (if path.absolute then [] else tree.working) path.parts := by
  obtain ⟨he, hz, hs⟩ := hp
  rw [find, he, hz, if_neg Bool.false_ne_true, if_neg Bool.false_ne_true,
    if_neg (Nat.not_lt.mpr hs)]

theorem find_place {place : Place} (hp : Plain (Place.toPath place)) (h : tree.Reached place) :
    tree.find (Place.toPath place) = .ok place :=
  (find_of_plain hp).trans (walk_place maxLinks h)

theorem find_top : tree.find (Place.toPath []) = .ok [] := by
  have hp : Plain (Place.toPath []) := by decide
  exact find_place hp (.inl settled_top)

/-- The text of a file in a directory that links do not lead to. -/
theorem readText_place {above : Place} {name text : String}
    (hp : Plain (Place.toPath (above ++ [name]))) (ha : tree.Settled above)
    (hn : Utf8.size name ≤ maxNameSize)
    (he : tree.entry? (above ++ [name]) = some (.file (Utf8.encode text))) :
    tree.readText (Place.toPath (above ++ [name])) = .ok text := by
  have hf := find_place hp (.inr ⟨above, name, _, rfl, ha, hn, he⟩)
  exact readText_eq_ok.mpr ⟨_, readBytes_eq_ok.mpr ⟨_, hf, he⟩, Utf8.decode?_encode text⟩

theorem isDirectory_of_find {path : Path} {place : Place} (hf : tree.find path = .ok place)
    (he : tree.entry? place = some .directory) : tree.isDirectory path = true := by
  simp only [isDirectory, entryAt, hf, bind, Except.bind, he]

/-- The text of the only file there is, in the top directory. -/
theorem readText_top {name content : String} (hn : Utf8.size name ≤ maxNameSize)
    (he : ¬ (⟨true, [.name name]⟩ : Path).text.isEmpty)
    (hz : ¬ (⟨true, [.name name]⟩ : Path).text.toList.contains '\x00')
    (hs : ¬ maxPathSize < Utf8.size (⟨true, [.name name]⟩ : Path).text) :
    readText ⟨[([name], .file (Utf8.encode content))], []⟩ ⟨true, [.name name]⟩ = .ok content := by
  have hw : walk ⟨[([name], .file (Utf8.encode content))], []⟩ maxLinks [] [.name name] =
      .ok [name] := by
    rw [walk, if_neg (Nat.not_lt.mpr hn)]
    simp [ entry?]
  refine readText_eq_ok.mpr ⟨Utf8.encode content, readBytes_eq_ok.mpr ⟨[name], ?_, ?_⟩,
    Utf8.decode?_encode content⟩
  · rw [find, if_neg he, if_neg hz, if_neg hs]
    exact hw
  · simp [ entry?]

/-! ## Names -/

/-- Two trees that differ at most in what files hold. -/
structure Alike (tree other : FileTree) : Prop where
  working : tree.working = other.working
  bare : ∀ place, (tree.entry? place).map FileEntry.bare = (other.entry? place).map FileEntry.bare

namespace Alike

variable {other : FileTree} {place : Place}

theorem entry_none (h : Alike tree other) (he : tree.entry? place = none) :
    other.entry? place = none := by
  have hb := h.bare place
  rw [he, Option.map_none] at hb
  exact Option.map_eq_none_iff.mp hb.symm

theorem entry_some (h : Alike tree other) {entry : FileEntry}
    (he : tree.entry? place = some entry) :
    ∃ entry', other.entry? place = some entry' ∧ entry'.bare = entry.bare := by
  have hb := h.bare place
  rw [he, Option.map_some] at hb
  exact Option.map_eq_some_iff.mp hb.symm

theorem entry_file (h : Alike tree other) {content : Bytes}
    (he : tree.entry? place = some (.file content)) :
    ∃ content', other.entry? place = some (.file content') := by
  obtain ⟨entry', ho, hb⟩ := h.entry_some he
  cases entry' with
  | file content' => exact ⟨content', ho⟩
  | directory | link => cases hb

theorem entry_directory (h : Alike tree other) (he : tree.entry? place = some .directory) :
    other.entry? place = some .directory := by
  obtain ⟨entry', ho, hb⟩ := h.entry_some he
  cases entry' with
  | directory => exact ho
  | file | link => cases hb

theorem entry_link (h : Alike tree other) {target : String}
    (he : tree.entry? place = some (.link target)) :
    other.entry? place = some (.link target) := by
  obtain ⟨entry', ho, hb⟩ := h.entry_some he
  cases entry' with
  | link target' => cases hb; exact ho
  | file | directory => cases hb

theorem walk_eq (h : Alike tree other) (links : Nat) (place : Place) (parts : List Path.Part) :
    tree.walk links place parts = other.walk links place parts := by
  fun_induction walk tree links place parts with
  | case1 links place => rw [walk]
  | case2 links place rest ih => rw [walk, ih]
  | case3 links place rest ih => rw [walk, ih]
  | case4 links place n rest hn => rw [walk, if_pos hn]
  | case5 links place n rest hn he => rw [walk, if_neg hn, h.entry_none he]
  | case6 links place n rest hn he ih =>
    rw [walk, if_neg hn, h.entry_directory he]
    exact ih
  | case7 links place n rest hn content he hr =>
    obtain ⟨content', ho⟩ := h.entry_file he
    rw [walk, if_neg hn, ho]
    exact (if_pos hr).symm
  | case8 links place n rest hn content he hr =>
    obtain ⟨content', ho⟩ := h.entry_file he
    rw [walk, if_neg hn, ho]
    exact (if_neg hr).symm
  | case9 place n rest hn target he => rw [walk, if_neg hn, h.entry_link he]
  | case10 place n rest hn target he path links ih =>
    rw [walk, if_neg hn, h.entry_link he]
    exact ih

theorem find_eq (h : Alike tree other) (path : Path) : tree.find path = other.find path := by
  simp only [find, h.walk_eq, h.working]

theorem canonical_eq (h : Alike tree other) (path : Path) :
    tree.canonical path = other.canonical path := by
  rw [canonical, canonical, h.find_eq]

theorem readBytes_eq (h : Alike tree other) {path : Path}
    (hp : ∀ place, tree.find path = .ok place → tree.entry? place = other.entry? place) :
    tree.readBytes path = other.readBytes path := by
  simp only [readBytes, entryAt, ← h.find_eq]
  cases hf : tree.find path with
  | error fault => rfl
  | ok place =>
    simp only [bind, Except.bind]
    rw [hp place hf]

theorem readText_eq (h : Alike tree other) {path : Path}
    (hp : ∀ place, tree.find path = .ok place → tree.entry? place = other.entry? place) :
    tree.readText path = other.readText path := by
  rw [readText, readText, h.readBytes_eq hp]

end Alike

end FileTree

end TrieFeed
