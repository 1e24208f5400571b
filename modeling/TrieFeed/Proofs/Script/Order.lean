import TrieFeed.Proofs.Fields
import TrieFeed.Script.Datum
/-!
# The order in which scripts list fields

Scripts list numbered names first, by number, and all others after them in the order in which they
were set. Fields that stand in this order already are listed as they are, and only those.
-/
namespace TrieFeed.Script.Datum

/-- A numbered name has only smaller numbers before it. -/
def Before (a b : String) : Prop := ∀ j ∈ index? b, ∃ i ∈ index? a, i ≤ j

instance (a b : String) : Decidable (Before a b) :=
  inferInstanceAs (Decidable (∀ j ∈ index? b, ∃ i ∈ index? a, i ≤ j))

def InOrder (names : List String) : Prop := names.Pairwise Before

instance (names : List String) : Decidable (InOrder names) :=
  inferInstanceAs (Decidable (names.Pairwise Before))

variable {α β : Type}

/-- The numbered fields, with their numbers. -/
def numbered (fields : Fields α) : List (Nat × String × α) :=
  fields.filterMap fun f => (index? f.1).map fun i => (i, f)

theorem mem_numbered {fields : Fields α} {p : Nat × String × α} :
    p ∈ numbered fields ↔ p.2 ∈ fields ∧ index? p.2.1 = some p.1 := by
  rw [numbered, List.mem_filterMap]
  constructor
  · rintro ⟨f, hf, h⟩
    obtain ⟨i, hi, rfl⟩ := Option.map_eq_some_iff.mp h
    exact ⟨hf, hi⟩
  · rintro ⟨hf, hi⟩
    exact ⟨p.2, hf, Option.map_eq_some_iff.mpr ⟨p.1, hi, rfl⟩⟩

theorem numbered_snd (fields : Fields α) :
    (numbered fields).map (·.2) = fields.filter fun f => (index? f.1).isSome := by
  induction fields with
  | nil => rfl
  | cons f rest ih =>
    cases h : index? f.1 with
    | none =>
      rw [numbered, List.filterMap_cons_none (by rw [h]; rfl),
        List.filter_cons_of_neg (by rw [h]; exact Bool.false_ne_true)]
      exact ih
    | some i =>
      rw [numbered, List.filterMap_cons_some (b := (i, f)) (by rw [h]; rfl), List.map_cons,
        List.filter_cons_of_pos (by rw [h]; rfl)]
      exact congrArg (f :: ·) ih

theorem listed_eq (fields : Fields α) :
    listed fields = ((numbered fields).mergeSort fun a b => a.1 ≤ b.1).map (·.2)
      ++ fields.filter fun f => (index? f.1).isNone := rfl

theorem listed_perm (fields : Fields α) : (listed fields).Perm fields := by
  have hn : (((numbered fields).mergeSort fun a b => a.1 ≤ b.1).map (·.2)).Perm
      (fields.filter fun f => (index? f.1).isSome) := by
    rw [← numbered_snd]
    exact (List.mergeSort_perm _ _).map _
  have hs : (fun f : String × α => (index? f.1).isNone) = fun f => !(index? f.1).isSome := by
    funext f
    cases index? f.1 <;> rfl
  rw [listed_eq, hs]
  exact (hn.append_right _).trans (List.filter_append_perm _ _)

/-- What scripts list stands in their order. -/
theorem inOrder_listed (fields : Fields α) : InOrder (Fields.names (listed fields)) := by
  have hlast (b : String × α) (hb : b ∈ fields.filter fun f => (index? f.1).isNone) (a : String) :
      Before a b.1 := by
    intro j hj
    have hn := (List.mem_filter.mp hb).2
    rw [Option.mem_def.mp hj] at hn
    cases hn
  rw [InOrder, Fields.names, List.pairwise_map, listed_eq, List.pairwise_append]
  refine ⟨?_, ?_, fun a _ b hb => hlast b hb a.1⟩
  · rw [List.pairwise_map]
    have hsort := @List.pairwise_mergeSort _ (fun a b : Nat × String × α => a.1 ≤ b.1)
      (fun a b c hab hbc => by simp only [decide_eq_true_eq] at *; omega)
      (fun a b => by simp only [Bool.or_eq_true, decide_eq_true_eq]; omega) (numbered fields)
    refine hsort.imp_of_mem fun ha hb hle j hj => ?_
    obtain ⟨-, hi⟩ := mem_numbered.mp (List.mem_mergeSort.mp ha)
    obtain ⟨-, hk⟩ := mem_numbered.mp (List.mem_mergeSort.mp hb)
    obtain rfl := Option.some_inj.mp (hk.symm.trans hj)
    exact ⟨_, hi, of_decide_eq_true hle⟩
  · exact List.pairwise_of_forall_mem_list fun a _ b hb => hlast b hb a.1

/-- In order, all fields after one without a number have none either. -/
theorem filter_append_of_inOrder {fields : Fields α} (h : InOrder (Fields.names fields)) :
    (fields.filter fun f => (index? f.1).isSome) ++ (fields.filter fun f => (index? f.1).isNone) =
      fields := by
  induction fields with
  | nil => rfl
  | cons f rest ih =>
    obtain ⟨hf, hr⟩ := List.pairwise_cons.mp h
    cases hi : index? f.1 with
    | some i =>
      rw [List.filter_cons_of_pos (by rw [hi]; rfl),
        List.filter_cons_of_neg (by rw [hi]; exact Bool.false_ne_true), List.cons_append, ih hr]
    | none =>
      have hrest (g : String × α) (hg : g ∈ rest) : index? g.1 = none := by
        cases hj : index? g.1 with
        | none => rfl
        | some j =>
          obtain ⟨i, hs, -⟩ := hf g.1 (List.mem_map_of_mem hg) j hj
          rw [hi] at hs
          cases hs
      rw [List.filter_cons_of_neg (by rw [hi]; exact Bool.false_ne_true),
        List.filter_cons_of_pos (by rw [hi]; rfl), List.filter_eq_nil_iff.mpr, List.nil_append,
        List.filter_eq_self.mpr]
      · intro g hg
        rw [hrest g hg]
        rfl
      · intro g hg
        rw [hrest g hg]
        exact Bool.false_ne_true

theorem listed_eq_self_iff {fields : Fields α} :
    listed fields = fields ↔ InOrder (Fields.names fields) := by
  constructor
  · intro h
    rw [← h]
    exact inOrder_listed fields
  · intro h
    have hsort : (numbered fields).mergeSort (fun a b => a.1 ≤ b.1) = numbered fields := by
      apply List.mergeSort_of_pairwise
      rw [numbered, List.pairwise_filterMap]
      have hp : fields.Pairwise fun a b => Before a.1 b.1 := List.pairwise_map.mp h
      refine hp.imp fun {a b} hab p ha q hb => ?_
      obtain ⟨i, hi, rfl⟩ := Option.map_eq_some_iff.mp ha
      obtain ⟨j, hj, rfl⟩ := Option.map_eq_some_iff.mp hb
      obtain ⟨k, hk, hle⟩ := hab j hj
      obtain rfl := Option.some_inj.mp (hi.symm.trans hk)
      exact decide_eq_true hle
    rw [listed_eq, hsort, numbered_snd, filter_append_of_inOrder h]

/-- The order is one of names, whatever their values are. -/
theorem listed_map (g : α → β) (fields : Fields α) :
    listed (fields.map fun f => (f.1, g f.2)) = (listed fields).map fun f => (f.1, g f.2) := by
  have hn : numbered (fields.map fun f => (f.1, g f.2)) =
      (numbered fields).map fun p => (p.1, p.2.1, g p.2.2) := by
    rw [numbered, numbered, List.filterMap_map, List.map_filterMap]
    congr 1
    funext f
    simp only [Function.comp_apply, Option.map_map]
    rfl
  have hs := List.map_mergeSort (r := fun a b : Nat × String × α => a.1 ≤ b.1)
    (s := fun a b : Nat × String × β => a.1 ≤ b.1) (f := fun p => (p.1, p.2.1, g p.2.2))
    (l := numbered fields) fun _ _ _ _ => rfl
  rw [listed_eq, listed_eq, hn, ← hs, List.map_append, List.map_map, List.map_map, List.filter_map]
  rfl

end TrieFeed.Script.Datum
