import Mathlib.Data.List.Perm.Basic
import TrieFeed.Proofs.Config.Layers
/-!
# The order in which providers are listed

Names can have one form in environment variables. Of those the one that is listed last gets all of
their variables, so that the order of the list counts exactly where two of its names have one form.
-/
namespace TrieFeed

open Resolver

variable {names others : List String} {name varName form : String} {rest : List Char}

/-- Of the names with a form in variables, the one that is listed last. -/
def lastNamed? (names : List String) (form : String) : Option String :=
  names.reverse.find? (envName · = form)

/-- Two lists of names make the same of all variables, for every provider and over every
resolver. -/
def Interchangeable (names others : List String) : Prop :=
  ∀ (r : Resolver) (vars : List (String × String)) (provider : String),
    (r.withEnv names vars).staticFor provider = (r.withEnv others vars).staticFor provider

theorem lastNamed?_eq_some_iff : lastNamed? names form = some name ↔
    envName name = form ∧ ∃ before after, names = before ++ name :: after ∧
      ∀ other ∈ after, envName other ≠ form := by
  rw [lastNamed?, List.find?_eq_some_iff_append, decide_eq_true_iff]
  refine and_congr_right fun _ => ⟨?_, ?_⟩
  · rintro ⟨after, before, he, hall⟩
    refine ⟨before.reverse, after.reverse, ?_, fun other ho => ?_⟩
    · rw [← List.reverse_reverse names, he]
      simp
    · simpa using hall other (List.mem_reverse.mp ho)
  · rintro ⟨before, after, rfl, hall⟩
    refine ⟨after.reverse, before.reverse, by simp, fun other ho => ?_⟩
    simpa using hall other (List.mem_reverse.mp ho)

theorem mem_of_lastNamed? (h : lastNamed? names form = some name) : name ∈ names :=
  List.mem_reverse.mp (List.mem_of_find?_eq_some h)

theorem lastNamed?_concat (names : List String) (name : String) :
    lastNamed? (names ++ [name]) (envName name) = some name :=
  lastNamed?_eq_some_iff.mpr ⟨rfl, names, [], rfl, nofun⟩

theorem envStart_toList (name : String) :
    (envStart name).toList = (envLead.toList ++ (envName name).toList) ++ ['_'] := by
  rw [envStart, String.toList_append, String.toList_append]
  rfl

theorem envName_eq_of_envStart_eq {other : String}
    (h : (envStart other).toList = (envStart name).toList) : envName other = envName name := by
  rw [envStart_toList, envStart_toList] at h
  exact String.toList_inj.mp (List.append_cancel_left (List.append_cancel_right h))

/-- A variable is for a name whose start it has, if no other start that it has is longer and no
later name has the same form. -/
theorem attributed_iff : Attributed names varName name rest ↔
    varName.toList = (envStart name).toList ++ rest ∧
    lastNamed? names (envName name) = some name ∧
    ∀ other ∈ names, (envStart other).toList <+: varName.toList →
      (envStart other).length ≤ (envStart name).length := by
  refine and_congr_right fun hv => ⟨?_, ?_⟩
  · rintro ⟨i, hi, hall⟩
    obtain ⟨hlt, he⟩ := List.getElem?_eq_some_iff.mp hi
    have hsplit : names = names.take i ++ name :: names.drop (i + 1) := by
      rw [← he, ← List.drop_eq_getElem_cons hlt, List.take_append_drop]
    refine ⟨lastNamed?_eq_some_iff.mpr ⟨rfl, _, _, hsplit, fun other ho hsame => ?_⟩,
      fun other ho hp => ?_⟩
    · obtain ⟨k, hk⟩ := List.getElem?_of_mem ho
      rw [List.getElem?_drop] at hk
      -- the same form makes the same start, which would have to be shorter than itself
      have hstart : envStart other = envStart name := by rw [envStart, envStart, hsame]
      have hp : (envStart other).toList <+: varName.toList := by
        rw [hstart]
        exact ⟨rest, hv.symm⟩
      have := (hall _ other hk hp).2 (by omega)
      rw [hstart] at this
      exact Nat.lt_irrefl _ this
    · obtain ⟨j, hj⟩ := List.getElem?_of_mem ho
      exact (hall j other hj hp).1
  · rintro ⟨hlast, hall⟩
    obtain ⟨-, before, after, rfl, hafter⟩ := lastNamed?_eq_some_iff.mp hlast
    refine ⟨before.length, by simp, fun j other hj hp => ?_⟩
    have hle := hall other (List.mem_of_getElem? hj) hp
    refine ⟨hle, fun hlt => Nat.lt_of_le_of_ne hle fun he => ?_⟩
    have ho : other ∈ after := by
      rw [List.getElem?_append_right (by omega), List.getElem?_cons] at hj
      rw [if_neg (by omega)] at hj
      exact List.mem_of_getElem? hj
    apply hafter other ho
    apply envName_eq_of_envStart_eq
    rw [← String.length_toList, ← String.length_toList] at he
    exact (List.prefix_of_prefix_length_le hp ⟨rest, hv.symm⟩ (Nat.le_of_eq he)).eq_of_length he

/-! ## Variables that tell -/

/-- A variable that only names with one form can be for. -/
def probe (name : String) : String := envStart name ++ "X"

theorem probe_toList (name : String) : (probe name).toList = (envStart name).toList ++ ['X'] := by
  rw [probe, String.toList_append]
  rfl

theorem length_le_of_prefix_probe {other : String}
    (h : (envStart other).toList <+: (probe name).toList) :
    (envStart other).length ≤ (envStart name).length := by
  rw [probe_toList] at h
  rcases List.prefix_concat_iff.mp h with he | hp
  · -- a start ends otherwise than this variable
    rw [envStart_toList other] at he
    have := (List.append_inj' he rfl).2
    simp at this
  · have := hp.length_le
    rwa [String.length_toList, String.length_toList] at this

theorem attributed_probe {rest : List Char} : Attributed names (probe name) name rest ↔
    rest = ['X'] ∧ lastNamed? names (envName name) = some name := by
  rw [attributed_iff, probe_toList]
  constructor
  · rintro ⟨hr, hl, -⟩
    exact ⟨(List.append_cancel_left hr).symm, hl⟩
  · rintro ⟨rfl, hl⟩
    refine ⟨rfl, hl, fun other _ hp => length_le_of_prefix_probe ?_⟩
    rwa [probe_toList]

theorem staticFor_withEnv_single (provider : String) (r : Resolver) (names : List String)
    (var : String × String) : (r.withEnv names [var]).staticFor provider =
      Fields.merge (r.staticFor provider) (written provider (variableWrite? names var).toList) :=
  staticFor_withVariable provider names r var

/-- The variable sets something for the name exactly if it is the last of its form. -/
theorem probe_written_iff :
    (empty.withEnv names [(probe name, "")]).staticFor name ≠ [] ↔
      lastNamed? names (envName name) = some name := by
  have hs : empty.staticFor name = [] := rfl
  rw [staticFor_withEnv_single, hs, Ne, Fields.merge_eq_nil_iff, and_iff_right rfl]
  constructor
  · intro h
    cases hw : variableWrite? names (probe name, "") with
    | none =>
      rw [hw] at h
      exact absurd rfl h
    | some w =>
      have hp : w.provider = name := by
        by_contra hne
        refine h ?_
        rw [hw, written, Option.toList_some, List.filter_cons_of_neg (by simpa using hne)]
        rfl
      obtain ⟨rest, ha, -⟩ := variableWrite?_eq_some_iff.mp hw
      rw [hp] at ha
      exact (attributed_probe.mp ha).2
  · intro hl
    have hw : variableWrite? names (probe name, "") =
        some ⟨name, Text.asciiLower (.ofList ['X']), .text ""⟩ :=
      variableWrite?_eq_some_iff.mpr
        ⟨['X'], attributed_probe.mpr ⟨rfl, hl⟩, List.cons_ne_nil _ _, rfl, rfl⟩
    rw [hw, written, Option.toList_some, List.filter_cons_of_pos (by simp)]
    exact List.cons_ne_nil _ _

/-! ## Lists in other orders -/

theorem Interchangeable.symm (h : Interchangeable names others) : Interchangeable others names :=
  fun r vars provider => (h r vars provider).symm

theorem Interchangeable.lastNamed? (h : Interchangeable names others)
    (hl : lastNamed? names form = some name) : lastNamed? others form = some name := by
  obtain ⟨rfl, -⟩ := lastNamed?_eq_some_iff.mp hl
  rw [← probe_written_iff, ← h]
  exact probe_written_iff.mpr hl

/-- With the same last names, a variable is for the same one. -/
theorem envMatch?_congr (hm : ∀ name, name ∈ names ↔ name ∈ others)
    (hl : ∀ form, lastNamed? names form = lastNamed? others form) (varName : String) :
    envMatch? names varName = envMatch? others varName := by
  refine Option.ext fun found => ?_
  obtain ⟨name, rest⟩ := found
  rw [envMatch?_eq_some_iff, envMatch?_eq_some_iff, attributed_iff, attributed_iff, hl]
  simp only [hm]

theorem interchangeable_iff (hp : names.Perm others) :
    Interchangeable names others ↔ ∀ form, lastNamed? names form = lastNamed? others form := by
  constructor
  · intro h form
    refine Option.ext fun name => ⟨h.lastNamed?, h.symm.lastNamed?⟩
  · intro hl r vars provider
    have hw : withVariable names = withVariable others := by
      funext r var
      rw [withVariable, withVariable, envMatch?_congr (fun _ => hp.mem_iff) hl]
    rw [withEnv, withEnv, hw]

/-- No two names have one form in variables. -/
def FormsApart (names : List String) : Prop :=
  ∀ a ∈ names, ∀ b ∈ names, envName a = envName b → a = b

theorem FormsApart.lastNamed?_iff (h : FormsApart names) :
    lastNamed? names form = some name ↔ name ∈ names ∧ envName name = form := by
  constructor
  · intro hl
    exact ⟨mem_of_lastNamed? hl, (lastNamed?_eq_some_iff.mp hl).1⟩
  · rintro ⟨hm, rfl⟩
    cases hl : lastNamed? names (envName name) with
    | none =>
      have hnone := List.find?_eq_none.mp hl name (List.mem_reverse.mpr hm)
      simp at hnone
    | some other =>
      obtain ⟨he, -⟩ := lastNamed?_eq_some_iff.mp hl
      rw [h other (mem_of_lastNamed? hl) name hm he]

/-- A list can be reordered so that any of its names is the last. -/
theorem interchangeable_last (h : ∀ others, names.Perm others → Interchangeable names others)
    (hm : name ∈ names) : lastNamed? names (envName name) = some name := by
  have hp : names.Perm (names.erase name ++ [name]) :=
    (List.perm_cons_erase hm).trans (List.perm_append_singleton name _).symm
  exact (h _ hp).symm.lastNamed? (lastNamed?_concat _ name)

/-- Two orders of a list make the same of all variables exactly if for every form the last name that
has it is the same. All orders of the list do exactly if no two of its names have one form. -/
theorem environment_order_iff (names : List String) :
    (∀ others, names.Perm others →
      (Interchangeable names others ↔
        ∀ form, lastNamed? names form = lastNamed? others form)) ∧
    ((∀ others, names.Perm others → Interchangeable names others) ↔ FormsApart names) := by
  refine ⟨fun others hp => interchangeable_iff hp, fun h a ha b hb he => ?_, fun h others hp => ?_⟩
  · have hla := interchangeable_last h ha
    rw [he, interchangeable_last h hb] at hla
    exact (Option.some.inj hla).symm
  · have ho : FormsApart others := fun a ha b hb => h a (hp.mem_iff.mpr ha) b (hp.mem_iff.mpr hb)
    refine (interchangeable_iff hp).mpr fun form => Option.ext fun name => ?_
    rw [h.lastNamed?_iff, ho.lastNamed?_iff, hp.mem_iff]

/-- Names that differ in a mark have one form, and which of them a variable sets depends on their
order; names whose forms begin alike are told apart in any order. -/
theorem environment_order_marks :
    ["a-b", "a.b"].Perm ["a.b", "a-b"] ∧ ¬Interchangeable ["a-b", "a.b"] ["a.b", "a-b"] ∧
    ["pool-stats", "pool"].Perm ["pool", "pool-stats"] ∧
    Interchangeable ["pool-stats", "pool"] ["pool", "pool-stats"] := by
  have hmarks : ["a-b", "a.b"].Perm ["a.b", "a-b"] := .swap ..
  have hpools : ["pool-stats", "pool"].Perm ["pool", "pool-stats"] := .swap ..
  refine ⟨hmarks, fun h => ?_, hpools, (environment_order_iff _).2.mpr ?_ _ hpools⟩
  · have hl := ((environment_order_iff _).1 _ hmarks).mp h "A_B"
    exact absurd hl (by decide)
  · unfold FormsApart
    decide

end TrieFeed
