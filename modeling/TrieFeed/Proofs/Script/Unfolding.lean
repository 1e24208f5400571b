import TrieFeed.Proofs.Outcome
import TrieFeed.Script.Crossing
/-!
# Data that refer to one another

In a script's memory data refer to one another, in circles and with parts in common. The host
follows the references to a fixed depth: it ends with the tree that the data unfold to exactly if no
way through them is longer and all ends of ways have values. Data on a circle never have a value.
-/
namespace TrieFeed.Script

open Outcome

/-! ## Ways through data -/

section

variable {δ : Type} (view : δ → View δ)

/-- Whether a view of data shows other data as a part. -/
def Shows (d part : δ) : Prop :=
  match view d with
  | .list items => part ∈ items
  | .map fields => ∃ f ∈ fields, f.2 = part
  | _ => False

/-- A way of so many references from data to data. -/
inductive Way : Nat → δ → δ → Prop
  | nil (d) : Way 0 d d
  | cons {n d e f} : Shows view d e → Way n e f → Way (n + 1) d f

/-- All ways from data are shorter than that. -/
def Shallow (levels : Nat) (d : δ) : Prop := ∀ n e, Way view n d e → n < levels

mutual

/-- The tree that data unfold to. -/
inductive Unfolds : δ → Value → Prop
  | value {d v} : view d = .value v → Unfolds d v
  | list {d items vs} : view d = .list items → UnfoldItems items vs → Unfolds d (.list vs)
  | map {d fields vs} : view d = .map fields → UnfoldFields fields vs → Unfolds d (.map vs)

inductive UnfoldItems : List δ → List Value → Prop
  | nil : UnfoldItems [] []
  | cons {d v rest vs} : Unfolds d v → UnfoldItems rest vs → UnfoldItems (d :: rest) (v :: vs)

inductive UnfoldFields : List (String × δ) → List (String × Value) → Prop
  | nil : UnfoldFields [] []
  | cons {name d v rest vs} : Unfolds d v → UnfoldFields rest vs →
      UnfoldFields ((name, d) :: rest) ((name, v) :: vs)

end

variable {view} {d e f : δ} {items : List δ} {fields : Fields δ} {levels m n : Nat}

theorem shows_list (h : view d = .list items) : Shows view d e ↔ e ∈ items := by
  rw [Shows, h]

theorem shows_map (h : view d = .map fields) : Shows view d e ↔ ∃ f ∈ fields, f.2 = e := by
  rw [Shows, h]

theorem not_shows_value {v : Value} (h : view d = .value v) : ¬Shows view d e := by
  rw [Shows, h]
  exact id

theorem unfolds_value {v w : Value} (h : view d = .value v) : Unfolds view d w ↔ w = v := by
  constructor
  · rintro (hw | ⟨hw, -⟩ | ⟨hw, -⟩) <;> cases h.symm.trans hw
    rfl
  · rintro rfl
    exact .value h

theorem not_unfolds_fault {v : Value} {fault : CrossingFault} (h : view d = .fault fault) :
    ¬Unfolds view d v := by
  rintro (hw | ⟨hw, -⟩ | ⟨hw, -⟩) <;> cases h.symm.trans hw

theorem unfolds_list {v : Value} (h : view d = .list items) :
    Unfolds view d v ↔ ∃ vs, UnfoldItems view items vs ∧ .list vs = v := by
  constructor
  · rintro (hw | ⟨hw, hu⟩ | ⟨hw, -⟩) <;> cases h.symm.trans hw
    exact ⟨_, hu, rfl⟩
  · rintro ⟨vs, hu, rfl⟩
    exact .list h hu

theorem unfolds_map {v : Value} (h : view d = .map fields) :
    Unfolds view d v ↔ ∃ vs, UnfoldFields view fields vs ∧ .map vs = v := by
  constructor
  · rintro (hw | ⟨hw, -⟩ | ⟨hw, hu⟩) <;> cases h.symm.trans hw
    exact ⟨_, hu, rfl⟩
  · rintro ⟨vs, hu, rfl⟩
    exact .map h hu

theorem Way.append (h : Way view m d e) (ho : Way view n e f) : Way view (m + n) d f := by
  induction h with
  | nil => rwa [Nat.zero_add]
  | cons hs _ ih =>
    rw [Nat.add_right_comm]
    exact .cons hs (ih ho)

theorem shallow_zero : ¬Shallow view 0 d := fun h => absurd (h 0 d (.nil d)) (Nat.lt_irrefl 0)

theorem shallow_succ_iff :
    Shallow view (levels + 1) d ↔ ∀ e, Shows view d e → Shallow view levels e := by
  constructor
  · intro h e he n f hf
    exact Nat.lt_of_succ_lt_succ (h (n + 1) f (.cons he hf))
  · rintro h _ _ (_ | ⟨hs, hw⟩)
    · exact Nat.succ_pos levels
    · exact Nat.succ_lt_succ (h _ hs _ _ hw)

/-- Around a circle there are ways of any length. -/
theorem not_shallow_of_circle (hw : Way view m d e) (hc : Way view (n + 1) e e) (levels : Nat) :
    ¬Shallow view levels d := by
  have hlong : ∃ k, levels ≤ k ∧ Way view k d e := by
    induction levels with
    | zero => exact ⟨m, Nat.zero_le m, hw⟩
    | succ levels ih =>
      obtain ⟨k, hk, hway⟩ := ih
      exact ⟨k + (n + 1), by omega, hway.append hc⟩
  obtain ⟨k, hk, hway⟩ := hlong
  intro h
  exact absurd (h k e hway) (Nat.not_lt.mpr hk)

/-! ## Values of data -/

theorem valueThrough_of_value {v : Value} (h : view d = .value v) :
    valueThrough view (levels + 1) d = .ok v := by
  rw [valueThrough, h]

theorem valueThrough_of_fault {fault : CrossingFault} (h : view d = .fault fault) :
    valueThrough view (levels + 1) d = .error fault := by
  rw [valueThrough, h]

theorem valueThrough_of_list (h : view d = .list items) :
    valueThrough view (levels + 1) d = (items.mapM (valueThrough view levels)).map .list := by
  rw [valueThrough, h]

/-- The value of a field through a view. -/
def fieldThrough (view : δ → View δ) (levels : Nat) (f : String × δ) :
    Except CrossingFault (String × Value) :=
  (valueThrough view levels f.2).map fun v => (f.1, v)

theorem valueThrough_of_map (h : view d = .map fields) :
    valueThrough view (levels + 1) d = (fields.mapM (fieldThrough view levels)).map .map := by
  rw [valueThrough, h]
  rfl

/-- The data have the values that they unfold to. -/
def Sees (view : δ → View δ) (levels : Nat) : Prop :=
  ∀ d v, valueThrough view levels d = .ok v ↔ Unfolds view d v ∧ Shallow view levels d

theorem Sees.mapM_items (h : Sees view levels) {vs : List Value} :
    items.mapM (valueThrough view levels) = .ok vs ↔
      UnfoldItems view items vs ∧ ∀ e ∈ items, Shallow view levels e := by
  induction items generalizing vs with
  | nil =>
    rw [List.mapM_nil, pure_eq_ok]
    constructor
    · rintro rfl
      exact ⟨.nil, List.forall_mem_nil _⟩
    · rintro ⟨hu, -⟩
      cases hu
      rfl
  | cons e rest ih =>
    rw [List.mapM_cons, bind_eq_ok, List.forall_mem_cons]
    simp only [bind_eq_ok, pure_eq_ok, ih, h e]
    constructor
    · rintro ⟨v, ⟨hu, hs⟩, vs, ⟨hus, hss⟩, rfl⟩
      exact ⟨.cons hu hus, hs, hss⟩
    · rintro ⟨hu, hs, hss⟩
      cases hu with
      | cons hu hus => exact ⟨_, ⟨hu, hs⟩, _, ⟨hus, hss⟩, rfl⟩

theorem Sees.mapM_fields (h : Sees view levels) {vs : List (String × Value)} :
    fields.mapM (fieldThrough view levels) = .ok vs ↔
      UnfoldFields view fields vs ∧ ∀ f ∈ fields, Shallow view levels f.2 := by
  induction fields generalizing vs with
  | nil =>
    rw [List.mapM_nil, pure_eq_ok]
    constructor
    · rintro rfl
      exact ⟨.nil, List.forall_mem_nil _⟩
    · rintro ⟨hu, -⟩
      cases hu
      rfl
  | cons f rest ih =>
    rw [List.mapM_cons, bind_eq_ok, List.forall_mem_cons]
    simp only [bind_eq_ok, pure_eq_ok, ih, fieldThrough, map_eq_ok, h f.2]
    constructor
    · rintro ⟨_, ⟨v, ⟨hu, hs⟩, rfl⟩, vs, ⟨hus, hss⟩, rfl⟩
      exact ⟨.cons hu hus, hs, hss⟩
    · rintro ⟨hu, hs, hss⟩
      cases hu with
      | cons hu hus => exact ⟨_, ⟨_, ⟨hu, hs⟩, rfl⟩, _, ⟨hus, hss⟩, rfl⟩

theorem sees (view : δ → View δ) (levels : Nat) : Sees view levels := by
  induction levels with
  | zero =>
    intro d v
    rw [valueThrough]
    exact iff_of_false nofun fun h => shallow_zero h.2
  | succ levels ih =>
    intro d v
    rw [shallow_succ_iff]
    cases hd : view d with
    | value w =>
      have hs : ∀ e, Shows view d e → Shallow view levels e := fun e he =>
        absurd he (not_shows_value hd)
      rw [valueThrough_of_value hd, Except.ok.injEq, unfolds_value hd, eq_comm, and_iff_left hs]
    | fault fault =>
      rw [valueThrough_of_fault hd]
      exact iff_of_false nofun fun h => not_unfolds_fault hd h.1
    | list items =>
      rw [valueThrough_of_list hd, map_eq_ok, unfolds_list hd, ← exists_and_right]
      simp only [ih.mapM_items, shows_list hd, and_right_comm]
    | map fields =>
      have hs : (∀ e, Shows view d e → Shallow view levels e) ↔
          ∀ f ∈ fields, Shallow view levels f.2 := by
        simp only [shows_map hd, forall_exists_index, and_imp, forall_apply_eq_imp_iff₂]
      rw [valueThrough_of_map hd, map_eq_ok, unfolds_map hd, ← exists_and_right, hs]
      simp only [ih.mapM_fields, and_right_comm]

/-! ## Data that have a value, and data that have none -/

/-- No way from data ends where the host finds no value. -/
def Clear (view : δ → View δ) (d : δ) : Prop :=
  ∀ n e fault, Way view n d e → view e ≠ .fault fault

theorem clear_iff :
    Clear view d ↔ (∀ fault, view d ≠ .fault fault) ∧ ∀ e, Shows view d e → Clear view e := by
  constructor
  · intro h
    refine ⟨fun fault => h 0 d fault (.nil d), ?_⟩
    exact fun e he n f fault hw => h (n + 1) f fault (.cons he hw)
  · rintro ⟨hd, hp⟩ _ _ fault (_ | ⟨hs, hw⟩)
    · exact hd fault
    · exact hp _ hs _ _ fault hw

theorem exists_valueThrough_iff :
    (∃ v, valueThrough view levels d = .ok v) ↔ Clear view d ∧ Shallow view levels d := by
  induction levels generalizing d with
  | zero =>
    rw [valueThrough]
    exact iff_of_false nofun fun h => shallow_zero h.2
  | succ levels ih =>
    rw [shallow_succ_iff, clear_iff]
    cases hd : view d with
    | value w =>
      rw [valueThrough_of_value hd]
      refine iff_of_true ⟨w, rfl⟩ ⟨⟨nofun, ?_⟩, ?_⟩
      · exact fun e he => absurd he (not_shows_value hd)
      · exact fun e he => absurd he (not_shows_value hd)
    | fault fault =>
      rw [valueThrough_of_fault hd]
      exact iff_of_false nofun fun h => h.1.1 fault rfl
    | list items =>
      rw [valueThrough_of_list hd, exists_map_iff, exists_mapM_ok_iff]
      simp only [ih, shows_list hd, forall_and, ne_eq, reduceCtorEq, not_false_eq_true,
        implies_true, true_and]
    | map fields =>
      rw [valueThrough_of_map hd, exists_map_iff, exists_mapM_ok_iff]
      simp only [fieldThrough, exists_map_iff, ih, shows_map hd, forall_exists_index, and_imp,
        forall_apply_eq_imp_iff₂, forall_and, ne_eq, reduceCtorEq, not_false_eq_true,
        implies_true, true_and]

/-- Data without a value have too long a way, or a way to where the host finds no value. -/
theorem of_valueThrough_error {fault : CrossingFault}
    (h : valueThrough view levels d = .error fault) :
    (fault = .tooDeep ∧ ∃ e, Way view levels d e) ∨
      ∃ n e, Way view n d e ∧ view e = .fault fault := by
  induction levels generalizing d with
  | zero =>
    rw [valueThrough] at h
    cases h
    exact .inl ⟨rfl, d, .nil d⟩
  | succ levels ih =>
    have hpart {e : δ} (hs : Shows view d e) (he : valueThrough view levels e = .error fault) :
        (fault = .tooDeep ∧ ∃ f, Way view (levels + 1) d f) ∨
          ∃ n f, Way view n d f ∧ view f = .fault fault := by
      rcases ih he with ⟨hf, f, hw⟩ | ⟨n, f, hw, hf⟩
      · exact .inl ⟨hf, f, .cons hs hw⟩
      · exact .inr ⟨n + 1, f, .cons hs hw, hf⟩
    cases hd : view d with
    | value w =>
      rw [valueThrough_of_value hd] at h
      cases h
    | fault other =>
      rw [valueThrough_of_fault hd] at h
      cases h
      exact .inr ⟨0, d, .nil d, hd⟩
    | list items =>
      rw [valueThrough_of_list hd, map_eq_error] at h
      obtain ⟨e, he, hf⟩ := exists_of_mapM_error h
      exact hpart ((shows_list hd).mpr he) hf
    | map fields =>
      rw [valueThrough_of_map hd, map_eq_error] at h
      obtain ⟨f, hf, he⟩ := exists_of_mapM_error h
      exact hpart ((shows_map hd).mpr ⟨f, hf, rfl⟩) (map_eq_error.mp he)

/-- Data on a circle have no value, and neither have data with a way there. -/
theorem error_of_circle (hw : Way view m d e) (hc : Way view (n + 1) e e) (levels : Nat) :
    ∃ fault, valueThrough view levels d = .error fault := by
  rw [exists_error_iff, exists_valueThrough_iff]
  exact fun h => not_shallow_of_circle hw hc levels h.2

end

/-! ## Data that look alike -/

section

variable {δ γ : Type}

/-- Views of different data with the same values, and related parts in the same places. -/
inductive View.Alike (R : δ → γ → Prop) : View δ → View γ → Prop
  | value (v) : Alike R (.value v) (.value v)
  | fault (f) : Alike R (.fault f) (.fault f)
  | list {items parts} : List.Forall₂ R items parts → Alike R (.list items) (.list parts)
  | map {fields parts} : List.Forall₂ (fun f g => f.1 = g.1 ∧ R f.2 g.2) fields parts →
      Alike R (.map fields) (.map parts)

variable {R : δ → γ → Prop} {view : δ → View δ} {look : γ → View γ} {d : δ} {c : γ}

/-- Data that cannot be told apart by looking have the same value, or none for the same reason. -/
theorem valueThrough_eq_of_alike (ha : ∀ d c, R d c → (view d).Alike R (look c)) (h : R d c)
    (levels : Nat) : valueThrough view levels d = valueThrough look levels c := by
  induction levels generalizing d c with
  | zero => rfl
  | succ levels ih =>
    have hv := ha d c h
    generalize hd : view d = v at hv
    generalize hc : look c = w at hv
    cases hv with
    | value v => rw [valueThrough_of_value hd, valueThrough_of_value hc]
    | fault f => rw [valueThrough_of_fault hd, valueThrough_of_fault hc]
    | list hp =>
      rw [valueThrough_of_list hd, valueThrough_of_list hc,
        mapM_congr_forall₂ (hp.imp fun _ _ hr => ih hr)]
    | map hp =>
      have hf (f : String × δ) (g : String × γ) (hr : f.1 = g.1 ∧ R f.2 g.2) :
          fieldThrough view levels f = fieldThrough look levels g := by
        simp only [fieldThrough, hr.1, ih hr.2]
      rw [valueThrough_of_map hd, valueThrough_of_map hc, mapM_congr_forall₂ (hp.imp hf)]

end

end TrieFeed.Script
