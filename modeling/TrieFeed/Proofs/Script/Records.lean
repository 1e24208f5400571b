import TrieFeed.Proofs.Script.Crossing
import TrieFeed.Proofs.Value.Binary
/-!
# Records in scripts

A record that a script hands back untouched stands in the order of scripts. It is the record that
was handed over, and has its binary form, only where it and all records in it stood in that order.
-/
namespace TrieFeed.Script

variable {P : Value → Prop}

/-- An echo has items for items, and of names no more than there were. -/
theorem every_echoed {v : Value} (hx : v.Every Value.Exact) (h : v.Every P)
    (hl : ∀ items others : List Value, others.length = items.length →
      P (.list items) → P (.list others))
    (hm : ∀ fields others : Record, (Fields.names others).Subperm (Fields.names fields) →
      P (.map fields) → P (.map others)) : v.echoed.Every P := by
  induction v using Value.partsInduction with
  | null => exact h
  | bool b => exact h
  | int n => exact h
  | float x => exact hx.self.elim
  | decimal d => exact hx.self.elim
  | text s => exact h
  | bytes b => exact h
  | list items ih =>
    rw [Value.echoed_list, Value.every_list]
    constructor
    · exact hl items _ (List.length_map _) h.self
    · intro w hw
      obtain ⟨v, hv, rfl⟩ := List.mem_map.mp hw
      exact ih v hv (hx.item hv) (h.item hv)
  | map fields ih =>
    rw [Value.echoed_map, Value.every_map]
    constructor
    · refine hm fields _ ?_ h.self
      rw [Fields.names_map]
      have hs : (Fields.names (fields.filter (·.1 ≠ "__proto__"))).Sublist (Fields.names fields) :=
        List.filter_sublist.map _
      exact ((Datum.listed_perm _).map _).subperm.trans hs.subperm
    · intro g hg
      obtain ⟨f, hf, rfl⟩ := List.mem_map.mp hg
      have hf : f ∈ fields := List.mem_of_mem_filter ((Datum.listed_perm _).mem_iff.mp hf)
      exact ih f hf (hx.field hf) (h.field hf)

theorem exact_echoed {v : Value} (h : v.Every Value.Exact) : v.echoed.Every Value.Exact :=
  every_echoed h h (fun _ _ _ _ => trivial) (fun _ _ _ _ => trivial)

theorem counted_echoed {v : Value} (hx : v.Every Value.Exact) (h : v.Every Value.Counted) :
    v.echoed.Every Value.Counted := by
  apply every_echoed hx h
  · intro items others hl hc
    rw [Value.Counted, hl]
    exact hc
  · intro fields others hs hc
    obtain ⟨hn, hz⟩ : fields.length < Nat.pow 2 64 ∧
      ∀ name ∈ Fields.names fields, Utf8.size name < Nat.pow 2 64 := hc
    refine ⟨lt_of_le_of_lt ?_ hn, fun name hm => hz name (hs.subset hm)⟩
    calc
      others.length = (Fields.names others).length := (List.length_map _).symm
      _ ≤ (Fields.names fields).length := hs.length_le
      _ = fields.length := List.length_map _

/-- No record of a value sets what it inherits from. -/
def Uninherited : Value → Prop
  | .map fields => "__proto__" ∉ Fields.names fields
  | _ => True

/-- A record comes back in the order of scripts. The record is the one that was handed over, and has
its binary form, exactly if it and all records in it stood in that order without a `__proto__`. -/
theorem record_crossing {fields : Record} (hx : (Value.map fields).Every Value.Exact)
    (hw : (Value.map fields).Within maxDepth) :
    ∃ back, valueOf (datumOf (.map fields)) = .ok back ∧
      (back = .map fields ↔ (Value.map fields).Every Value.Stable) ∧
      ((Value.map fields).Every Value.Counted → ∃ before after,
        (Value.map fields).binary? = .ok before ∧ back.binary? = .ok after ∧
          (after = before ↔ (Value.map fields).Every Value.Stable)) ∧
      ((Value.map fields).Every Uninherited →
        back = .map (Datum.listed (fields.map fun f => (f.1, f.2.echoed)))) := by
  have hs : (Value.map fields).Every Value.Sized := hx.sized fun _ h => h
  refine ⟨_, valueThrough_datumOf hs hw, echoed_eq_self_iff, ?_, ?_⟩
  · intro hc
    have hxe := exact_echoed hx
    obtain ⟨before, hb⟩ := Value.binary?_exact hx
    obtain ⟨after, ha⟩ := Value.binary?_exact hxe
    refine ⟨before, after, hb, ha, ?_⟩
    rw [← echoed_eq_self_iff, ← Value.binary?_inj hxe hx (counted_echoed hx hc) hc, ha, hb,
      Except.ok.injEq]
  · intro hp
    have hk : fields.filter (·.1 ≠ "__proto__") = fields := Fields.erase_eq_self_iff.mpr hp.self
    rw [Value.echoed_map, hk, Datum.listed_map]

/-- A name of a place in a list, after a name that is none. -/
def mixedRecord : Record := [("b", .int 1), ("1", .int 2)]

theorem record_crossing_mixed :
    (Value.map mixedRecord).Every Value.Exact ∧ (Value.map mixedRecord).Within maxDepth ∧
      (Value.map mixedRecord).Every Value.Counted ∧ (Value.map mixedRecord).Every Uninherited ∧
      ∃ back before after, valueOf (datumOf (.map mixedRecord)) = .ok back ∧
        back = .map [("1", .int 2), ("b", .int 1)] ∧
        (Value.map mixedRecord).binary? = .ok before ∧ back.binary? = .ok after ∧
          after ≠ before := by
  have hevery {P : Value → Prop} (hm : P (.map mixedRecord)) (h1 : P (.int 1)) (h2 : P (.int 2)) :
      (Value.map mixedRecord).Every P := by
    rw [Value.every_map]
    refine ⟨hm, List.forall_mem_cons.mpr ⟨?_, List.forall_mem_cons.mpr ⟨?_, nofun⟩⟩⟩
    · exact (Value.every_leaf rfl rfl).mpr h1
    · exact (Value.every_leaf rfl rfl).mpr h2
  have hx : (Value.map mixedRecord).Every Value.Exact :=
    hevery trivial (by rw [Value.Exact]; decide) (by rw [Value.Exact]; decide)
  have hw : (Value.map mixedRecord).Within maxDepth := by
    simp [mixedRecord, maxDepth, Value.Within]
  have hc : (Value.map mixedRecord).Every Value.Counted :=
    hevery (by rw [Value.Counted]; decide) trivial trivial
  have hu : (Value.map mixedRecord).Every Uninherited :=
    hevery (by rw [Uninherited]; decide) trivial trivial
  have hn : ¬(Value.map mixedRecord).Every Value.Stable := by
    intro h
    have ho : Datum.InOrder (Fields.names mixedRecord) := h.self.2
    exact absurd ho (by decide)
  obtain ⟨back, hb, -, hbytes, hlisted⟩ := record_crossing hx hw
  obtain ⟨before, after, hbefore, hafter, hiff⟩ := hbytes hc
  refine ⟨hx, hw, hc, hu, back, before, after, hb, ?_, hbefore, hafter, fun h => hn (hiff.mp h)⟩
  have hletter : Datum.index? "b" = none := by decide
  have hdigit : Datum.index? "1" = some 1 := by decide
  rw [hlisted hu]
  simp [mixedRecord, Datum.listed, hletter, hdigit, Value.echoed]

end TrieFeed.Script
