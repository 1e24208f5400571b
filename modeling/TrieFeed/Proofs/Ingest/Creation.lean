import TrieFeed.Proofs.Ingest.Clients
/-!
# Calls that make sure of a target

Such a call takes two steps on the store, to look for its target and to create it if it has missed
it, and calls run side by side. One of them is first to create the target, with its scheme. All that
have looked for it by then answer that they created it, and none that looks later.
-/
namespace TrieFeed

/-- What a call makes sure of. -/
structure Ensuring where
  target : String
  scheme : String

inductive EnsureStage where
  | started
  | missed
  | answered (created : Bool)

/-- A store, and calls on their way. -/
structure Ensures (ι : Type) where
  store : TrieStore
  stage : ι → EnsureStage

namespace Ensures

open TrieStore

variable {ι : Type} [DecidableEq ι] (c : ι → Ensuring)

def start (s : TrieStore) : Ensures ι := ⟨s, fun _ => .started⟩

/-- The next step of one of the calls; one that has answered takes none. -/
def step (w : Ensures ι) (i : ι) : Ensures ι :=
  match w.stage i with
  | .started => { w with
      stage := Function.update w.stage i
        (if w.store.exists? (c i).target then .answered false else .missed) }
  | .missed =>
    ⟨w.store.create (c i).target (c i).scheme, Function.update w.stage i (.answered true)⟩
  | .answered _ => w

/-- The steps of calls in some order. -/
def run (w : Ensures ι) (order : List ι) : Ensures ι := order.foldl (step c) w

variable {c} {w : Ensures ι} {i j : ι} {target scheme : String} {order looked : List ι}

/-! ## Steps -/

theorem step_present (h : w.stage i = .started) (he : w.store.exists? (c i).target) :
    step c w i = { w with stage := Function.update w.stage i (.answered false) } := by
  rw [step, h]
  dsimp only
  rw [if_pos he]

theorem step_absent (h : w.stage i = .started) (he : w.store.exists? (c i).target = false) :
    step c w i = { w with stage := Function.update w.stage i .missed } := by
  rw [step, h]
  dsimp only
  rw [he, if_neg Bool.false_ne_true]

theorem step_missed (h : w.stage i = .missed) : step c w i =
    ⟨w.store.create (c i).target (c i).scheme, Function.update w.stage i (.answered true)⟩ := by
  rw [step, h]

theorem step_answered {created : Bool} (h : w.stage i = .answered created) : step c w i = w := by
  rw [step, h]

theorem stage_step_of_ne (h : j ≠ i) : (step c w i).stage j = w.stage j := by
  rw [step]
  cases w.stage i with
  | started => exact Function.update_of_ne h ..
  | missed => exact Function.update_of_ne h ..
  | answered created => rfl

theorem run_snoc (w : Ensures ι) (order : List ι) (i : ι) :
    run c w (order ++ [i]) = step c (run c w order) i := by
  rw [run, List.foldl_append]
  rfl

theorem run_append (w : Ensures ι) (order later : List ι) :
    run c w (order ++ later) = run c (run c w order) later := List.foldl_append

/-- A call that takes both of its steps at once does what the store itself does. -/
theorem run_alone (h : w.stage i = .started) : run c w [i, i] =
    ⟨(w.store.ensure (c i).target (c i).scheme).2,
      Function.update w.stage i (.answered (w.store.ensure (c i).target (c i).scheme).1)⟩ := by
  rw [run, List.foldl_cons, List.foldl_cons, List.foldl_nil, ensure]
  by_cases he : w.store.exists? (c i).target
  · rw [if_pos he, step_present h he, step_answered (Function.update_self ..)]
  · rw [if_neg he, step_absent h (Bool.eq_false_iff.mpr he),
      step_missed (Function.update_self ..)]
    dsimp only
    rw [Function.update_idem]

/-- Calls for other targets leave a target and the calls for it alone. -/
theorem scheme?_step_of_ne (h : (c i).target ≠ target) :
    (step c w i).store.scheme? target = w.store.scheme? target := by
  rw [step]
  cases w.stage i with
  | started => rfl
  | missed =>
    dsimp only
    rw [scheme?_create, if_neg h, Option.or_none]
  | answered created => rfl

theorem scheme?_step_of_some (h : w.store.scheme? target = some scheme) (i : ι) :
    (step c w i).store.scheme? target = some scheme := by
  rw [step]
  cases w.stage i with
  | started => exact h
  | missed =>
    dsimp only
    rw [scheme?_create, h, Option.some_or]
  | answered created => exact h

theorem exists?_of_scheme? {s : TrieStore} (h : s.scheme? target = some scheme) :
    s.exists? target := by
  by_contra he
  rw [scheme?_eq_none_iff.mpr (Bool.eq_false_iff.mpr he)] at h
  cases h

/-! ## Before and after the first creation -/

/-- A target is missing, and the calls for it have done no more than to look for it. -/
structure Unmade (c : ι → Ensuring) (target : String) (looked : List ι) (w : Ensures ι) :
    Prop where
  missing : w.store.scheme? target = none
  stages : ∀ i, (c i).target = target → w.stage i = if i ∈ looked then .missed else .started

/-- A target is there. The calls that looked for it early have missed it, the others do not. -/
structure Made (c : ι → Ensuring) (target scheme : String) (looked : List ι) (w : Ensures ι) :
    Prop where
  found : w.store.scheme? target = some scheme
  early : ∀ i ∈ looked, (c i).target = target → w.stage i = .missed ∨ w.stage i = .answered true
  late : ∀ i ∉ looked, (c i).target = target → w.stage i = .started ∨ w.stage i = .answered false

theorem Unmade.look (h : Unmade c target order w) (hi : (c i).target = target → i ∉ order) :
    Unmade c target (order ++ [i]) (step c w i) := by
  by_cases ht : (c i).target = target
  · have hs : w.stage i = .started := by
      rw [h.stages i ht, if_neg (hi ht)]
    have he : w.store.exists? (c i).target = false := by
      rw [ht]
      exact scheme?_eq_none_iff.mp h.missing
    rw [step_absent hs he]
    refine ⟨h.missing, fun j hj => ?_⟩
    by_cases hij : j = i
    · subst hij
      rw [if_pos (List.mem_append_right _ List.mem_cons_self)]
      exact Function.update_self ..
    · have hm : j ∈ order ++ [i] ↔ j ∈ order := by simp [hij]
      simp only [hm, ← h.stages j hj]
      exact Function.update_of_ne hij ..
  · refine ⟨(scheme?_step_of_ne ht).trans h.missing, fun j hj => ?_⟩
    have hij : j ≠ i := by
      rintro rfl
      exact ht hj
    have hm : j ∈ order ++ [i] ↔ j ∈ order := by simp [hij]
    rw [stage_step_of_ne hij, h.stages j hj]
    simp only [hm]

/-- The first call to take its second step creates the target. -/
theorem Unmade.make (h : Unmade c target order w) (ht : (c i).target = target) (hi : i ∈ order) :
    Made c target (c i).scheme order (step c w i) ∧ (step c w i).stage i = .answered true := by
  have hs : w.stage i = .missed := by
    rw [h.stages i ht, if_pos hi]
  rw [step_missed hs]
  refine ⟨⟨?_, fun j hj hjt => ?_, fun j hj hjt => ?_⟩, Function.update_self ..⟩
  · dsimp only
    rw [scheme?_create, h.missing, if_pos ht, Option.none_or]
  · by_cases hij : j = i
    · subst hij
      exact .inr (Function.update_self ..)
    · refine .inl ((Function.update_of_ne hij ..).trans ?_)
      rw [h.stages j hjt, if_pos hj]
  · have hij : j ≠ i := by
      rintro rfl
      exact hj hi
    refine .inl ((Function.update_of_ne hij ..).trans ?_)
    rw [h.stages j hjt, if_neg hj]

theorem Made.step (h : Made c target scheme looked w) (i : ι) :
    Made c target scheme looked (step c w i) := by
  refine ⟨scheme?_step_of_some h.found i, fun j hj hjt => ?_, fun j hj hjt => ?_⟩
  · by_cases hij : j = i
    · subst hij
      rcases h.early j hj hjt with hs | hs
      · rw [step_missed hs]
        exact .inr (Function.update_self ..)
      · rw [step_answered hs]
        exact .inr hs
    · rw [stage_step_of_ne hij]
      exact h.early j hj hjt
  · by_cases hij : j = i
    · subst hij
      rcases h.late j hj hjt with hs | hs
      · rw [step_present hs (hjt ▸ exists?_of_scheme? h.found)]
        exact .inr (Function.update_self ..)
      · rw [step_answered hs]
        exact .inr hs
    · rw [stage_step_of_ne hij]
      exact h.late j hj hjt

theorem Made.run (h : Made c target scheme looked w) (order : List ι) :
    Made c target scheme looked (run c w order) := by
  induction order generalizing w with
  | nil => exact h
  | cons i rest ih => exact ih (h.step i)

theorem stage_run_answered {created : Bool} (h : w.stage i = .answered created)
    (order : List ι) : (run c w order).stage i = .answered created := by
  induction order generalizing w with
  | nil => exact h
  | cons j rest ih =>
    refine ih ?_
    by_cases hij : i = j
    · subst hij
      rw [step_answered h]
      exact h
    · rw [stage_step_of_ne hij]
      exact h

theorem Made.answered_iff (h : Made c target scheme looked w) (hi : (c i).target = target)
    {created : Bool} (ha : w.stage i = .answered created) : created = true ↔ i ∈ looked := by
  by_cases he : i ∈ looked
  · rcases h.early i he hi with hs | hs
    · cases hs.symm.trans ha
    · cases hs.symm.trans ha
      exact iff_of_true rfl he
  · rcases h.late i he hi with hs | hs
    · cases hs.symm.trans ha
    · cases hs.symm.trans ha
      exact iff_of_false Bool.false_ne_true he

/-- In any order of steps, a target that is missing at the start is missing to the end, or is
created by the first call that takes its second step for it. -/
theorem unmade_or_made {s : TrieStore} (h : s.scheme? target = none) (order : List ι) :
    Unmade c target order (run c (start s) order) ∨
    ∃ before f after, order = before ++ f :: after ∧ (c f).target = target ∧ f ∈ before ∧
      Unmade c target before (run c (start s) before) := by
  induction order using List.reverseRecOn with
  | nil => exact .inl ⟨h, fun i _ => rfl⟩
  | append_singleton order i ih =>
    rcases ih with hu | ⟨before, f, after, rfl, hf⟩
    · by_cases hi : (c i).target = target ∧ i ∈ order
      · exact .inr ⟨order, i, [], rfl, hi.1, hi.2, hu⟩
      · rw [run_snoc]
        exact .inl (hu.look fun ht hm => hi ⟨ht, hm⟩)
    · refine .inr ⟨before, f, after ++ [i], ?_, hf⟩
      rw [List.append_assoc, List.cons_append]

/-- A call that is not interrupted does what the store itself does. Whatever the order of the steps
of calls: a target that is there keeps its scheme, and no call answers that it created it. One that
is missing is created by one call, with whose scheme it stays, and a call for it answers that it
created it exactly if it took its first step before that creation. So that call is the only one to
answer so exactly if no other that has answered looked before the creation. -/
theorem created_answers_iff (c : ι → Ensuring) (s : TrieStore) (order : List ι)
    (target : String) :
    (∀ (w : Ensures ι) i, w.stage i = .started → run c w [i, i] =
      ⟨(w.store.ensure (c i).target (c i).scheme).2, Function.update w.stage i
        (.answered (w.store.ensure (c i).target (c i).scheme).1)⟩) ∧
    (∀ scheme, s.scheme? target = some scheme →
      (run c (start s) order).store.scheme? target = some scheme ∧
      ∀ i, (c i).target = target → (run c (start s) order).stage i ≠ .answered true) ∧
    (s.scheme? target = none →
      ((run c (start s) order).store.scheme? target = none ∧ ∀ i, (c i).target = target →
        ∀ created, (run c (start s) order).stage i ≠ .answered created) ∨
      ∃ before f after, order = before ++ f :: after ∧ (c f).target = target ∧ f ∈ before ∧
        (run c (start s) before).store.scheme? target = none ∧
        (run c (start s) (before ++ [f])).store.scheme? target = some (c f).scheme ∧
        (run c (start s) order).store.scheme? target = some (c f).scheme ∧
        (run c (start s) order).stage f = .answered true ∧
        (∀ i, (c i).target = target → ∀ created,
          (run c (start s) order).stage i = .answered created → (created = true ↔ i ∈ before)) ∧
        ((∀ i, (c i).target = target → (run c (start s) order).stage i = .answered true → i = f) ↔
          ∀ i ∈ before, (c i).target = target →
            (run c (start s) order).stage i ≠ .missed → i = f)) := by
  refine ⟨fun w i => run_alone, fun scheme hs => ?_, fun hs => ?_⟩
  · have hm : Made c target scheme [] (start s : Ensures ι) :=
      ⟨hs, nofun, fun i _ _ => .inl rfl⟩
    refine ⟨(hm.run order).found, fun i hi ha => ?_⟩
    exact List.not_mem_nil (((hm.run order).answered_iff hi ha).mp rfl)
  · rcases unmade_or_made (c := c) hs order with hu | ⟨before, f, after, rfl, hf, hm, hu⟩
    · refine .inl ⟨hu.missing, fun i hi created ha => ?_⟩
      rw [hu.stages i hi] at ha
      split at ha <;> cases ha
    · obtain ⟨hmade, hanswered⟩ := hu.make hf hm
      have hrun : run c (start s) (before ++ f :: after) =
          run c (step c (run c (start s) before) f) after := run_append ..
      have hlast := hmade.run after
      rw [← hrun] at hlast
      have hiff : ∀ i, (c i).target = target → ∀ created,
          (run c (start s) (before ++ f :: after)).stage i = .answered created →
            (created = true ↔ i ∈ before) := fun i hi created ha => hlast.answered_iff hi ha
      refine .inr ⟨before, f, after, rfl, hf, hm, hu.missing, ?_, hlast.found, ?_, hiff, ?_, ?_⟩
      · rw [run_snoc]
        exact hmade.found
      · rw [hrun]
        exact stage_run_answered hanswered after
      · intro hone i hi ht hn
        rcases hlast.early i hi ht with hs | hs
        · exact absurd hs hn
        · exact hone i ht hs
      · intro hone i ht ha
        refine hone i ((hiff i ht true ha).mp rfl) ht fun hn => ?_
        cases hn.symm.trans ha

/-- Two calls for one target, with different schemes. -/
def rival : Bool → Ensuring
  | false => ⟨"t", "mpf"⟩
  | true => ⟨"t", "other"⟩

/-- The call that looks last creates the target, and both answer that they did. -/
theorem created_answers_iff_rival :
    (run rival (start .empty) [false, true, true, false]).stage false = .answered true ∧
    (run rival (start .empty) [false, true, true, false]).stage true = .answered true ∧
    (run rival (start .empty) [false, true, true, false]).store.scheme? "t" = some "other" ∧
    ∃ before f after, [false, true, true, false] = before ++ f :: after ∧
      ¬ ∀ i ∈ before, (rival i).target = "t" →
        (run rival (start .empty) [false, true, true, false]).stage i ≠ .missed → i = f := by
  obtain ⟨-, -, hmissing⟩ := created_answers_iff rival .empty [false, true, true, false] "t"
  rcases hmissing rfl with ⟨hn, -⟩ | ⟨before, f, after, ho, -, -, -, -, -, -, -, hiff⟩
  · cases hn
  · refine ⟨rfl, rfl, rfl, before, f, after, ho, fun hone => ?_⟩
    have hf := hiff.mpr hone
    cases (hf false rfl rfl).trans (hf true rfl rfl).symm

end Ensures

end TrieFeed
