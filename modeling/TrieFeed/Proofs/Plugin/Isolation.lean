import TrieFeed.Proofs.Plugin.Touches
/-!
# Isolation

What becomes of a directory in a pass does not depend on another one, as long as it keeps to what is
the same with and without it. Scripts can get at one another by databases, and directories by links.
-/
namespace TrieFeed

open Host (Agree)

/-! ## Trees that differ in one directory -/

/-- A place inside another one, which is not inside itself. -/
def Place.below (inside place : Place) : Bool := inside.isPrefixOf place && place != inside

namespace FileTree

variable {tree other : FileTree} {inside place : Place}

end FileTree

namespace Loader

open FileTree (Place.toPath)
open Script (Module Program)

variable {l m : Loader} {h k : Host} {names : String → Prop} {part : Touch → Prop}

/-! ## Turns on two hosts -/

/-- Directories whose turns keep to a part of the host and load no plugin with one of the names. -/
def Keep (part : Touch → Prop) (names : String → Prop) : List Path → Loader → Host → Prop
  | [], _, _ => True
  | directory :: rest, l, h =>
    Within part h (paired (turn directory l)) ∧
      (∀ p, (turn directory l h).1.plugin? = some p → ¬ names p.name) ∧
      Keep part names rest (turn directory l h).2.1 (turn directory l h).2.2

theorem Keep.mono {other : Touch → Prop} {directories : List Path}
    (hk : Keep part names directories l h) (hp : ∀ touch, part touch → other touch) :
    Keep other names directories l h := by
  induction directories generalizing l h with
  | nil => trivial
  | cons directory rest ih =>
    obtain ⟨hw, hn, hrest⟩ := hk
    exact ⟨hw.mono hp, hn, ih hrest⟩

/-- As long as only the names matter, there is always a part that turns keep to, and a finite one. -/
theorem keep_touches {directories : List Path}
    (hn : ∀ t ∈ (turns directories l h).1, ∀ p, t.2.plugin? = some p → ¬ names p.name) :
    ∃ touches : List Touch, Keep (· ∈ touches) names directories l h := by
  induction directories generalizing l h with
  | nil => exact ⟨[], trivial⟩
  | cons directory rest ih =>
    rw [turns_cons] at hn
    obtain ⟨first, hfirst⟩ := turn_touches directory l h
    obtain ⟨others, hrest⟩ := ih fun t ht => hn t (List.mem_cons_of_mem _ ht)
    exact ⟨first ++ others, hfirst.mono fun _ => List.mem_append_left others,
      hn _ List.mem_cons_self, hrest.mono fun _ => List.mem_append_right first⟩

namespace Parted

variable {place : Place} {before after : List String} {name : String}

end Parted

section

variable (first : Option String) (second : FileEntry)

end

end Loader

end TrieFeed
