import Mathlib.Data.List.Perm.Subperm
import TrieFeed.Proofs.Fields
import TrieFeed.Proofs.Number.Numeral
import TrieFeed.Proofs.Value.Whole
/-!
# Byte-like maps

A map is byte-like if besides its length it has the indices below that and nothing else. The fields
are counted, and as no name is given twice the count tells that no other name is there.
-/
namespace TrieFeed.Value

open Numeral (repr_injective)

/-! ## Names -/

/-- The names of a byte-like map of so many elements. -/
def indexNames (n : Nat) : List String := "length" :: (List.range n).map toString

variable {fields : Record} {n : Nat}

theorem length_indexNames (n : Nat) : (indexNames n).length = n + 1 := by
  rw [indexNames, List.length_cons, List.length_map, List.length_range]

theorem mem_indexNames {name : String} :
    name ∈ indexNames n ↔ name = "length" ∨ ∃ i < n, name = toString i := by
  simp only [indexNames, List.mem_cons, List.mem_map, List.mem_range, eq_comm (a := name)]

theorem length_ne_toString (i : Nat) : "length" ≠ toString i := by
  intro h
  have hl : 'l' ∈ i.repr.toList := by
    have hname : "length" = i.repr := h
    rw [← hname]
    decide
  exact absurd (Numeral.isDigit_of_mem_repr hl) (by decide)

theorem nodup_indexNames (n : Nat) : (indexNames n).Nodup := by
  refine List.nodup_cons.mpr ⟨?_, List.nodup_range.map repr_injective⟩
  intro h
  obtain ⟨i, -, hi⟩ := List.mem_map.mp h
  exact length_ne_toString i hi.symm

/-- Different names that are as many as those sought, and among which are all of these, are no
others. -/
theorem mem_names_iff_indexNames (hd : Fields.Distinct fields) :
    (∀ name, name ∈ Fields.names fields ↔ name ∈ indexNames n) ↔
      indexNames n ⊆ Fields.names fields ∧ fields.length = n + 1 := by
  have hlength : (Fields.names fields).length = fields.length := List.length_map _
  rw [← List.perm_ext_iff_of_nodup hd (nodup_indexNames n)]
  constructor
  · intro h
    exact ⟨h.symm.subset, by rw [← hlength, h.length_eq, length_indexNames]⟩
  · rintro ⟨hsub, hcount⟩
    refine ((List.subperm_of_subset (nodup_indexNames n) hsub).perm_of_length_le ?_).symm
    rw [hlength, hcount, length_indexNames]

/-! ## Elements -/

section

variable {v : Value} {m : Int} {c : UInt8}

/-- The numbers that elements stand for: whole numbers, and finite doubles with the fraction
dropped. -/
inductive Element : Value → Int → Prop
  | int (m : Int) : Element (.int m) m
  | float {x q m} : x.toRat? = some q → IsTrunc q m → Element (.float x) m

theorem toNat_byteOf (m : Int) : ((byteOf m).toNat : Int) = m % 256 := by
  have hm : 0 ≤ m % 256 ∧ m % 256 < 256 := by omega
  have hmod : m.emod 256 = m % 256 := rfl
  rw [byteOf, hmod, UInt8.toNat_ofNat']
  omega

/-- A double past the greatest number of sixty-four bits. -/
def Past : Value → Int → Prop
  | .float _, m => 2 ^ 63 ≤ m
  | _, _ => False

/-- The byte of an element is what its number leaves modulo 256. Doubles past the last number of
sixty-four bits are taken for that number, although eight zeros are what they end in. -/
def Reduced (v : Value) (m : Int) (c : UInt8) : Prop :=
  (¬Past v m ∧ (c.toNat : Int) = m % 256) ∨ (Past v m ∧ c = 255 ∧ m % 256 = 0)

theorem byteOf_clampSigned {x : Binary64} (h : x.trunc? = some m) :
    Reduced (.float x) m (byteOf (Numeral.clampSigned 64 m)) := by
  have hclamp : Numeral.clampSigned 64 m = max (-2 ^ 63) (min (2 ^ 63 - 1) m) :=
    Numeral.clampSigned_eq 64 m
  have hzeros := Binary64.trunc?_mod h
  rw [hclamp]
  by_cases hm : 2 ^ 63 ≤ m
  · refine .inr ⟨hm, ?_, hzeros (.inr hm)⟩
    rw [min_eq_left (by omega)]
    rfl
  · refine .inl ⟨hm, ?_⟩
    rw [toNat_byteOf]
    omega

theorem Element.byte (h : Element v m) : ∃ c, v.elementByte? = some c ∧ Reduced v m c := by
  cases h with
  | int => exact ⟨byteOf m, rfl, .inl ⟨id, toNat_byteOf m⟩⟩
  | @float x q _ hq hcut =>
    have hm := Binary64.trunc?_eq_some_iff.mpr ⟨q, hq, hcut⟩
    refine ⟨byteOf (Numeral.clampSigned 64 m), ?_, byteOf_clampSigned hm⟩
    rw [elementByte?, Binary64.isFinite_eq, hq,
      Binary64.toSigned_eq 64 (Binary64.trunc?_truncated hm)]
    rfl

theorem exists_element (h : v.elementByte? = some c) : ∃ m, Element v m := by
  cases v with
  | int m => exact ⟨m, .int m⟩
  | float x =>
    cases hq : x.toRat? with
    | none =>
      rw [elementByte?, Binary64.isFinite_eq, hq] at h
      cases h
    | some q =>
      obtain ⟨m, hm⟩ := Binary64.exists_trunc hq
      obtain ⟨_, hq', hcut⟩ := Binary64.trunc?_eq_some_iff.mp hm
      exact ⟨m, .float hq' hcut⟩
  | _ => cases h

end

/-! ## Maps -/

/-- A map of so many elements under their indices and a length that is read as their number. -/
structure ByteLike (fields : Record) (n : Nat) : Prop where
  length : ∃ v, Fields.get? "length" fields = some v ∧ v.toInt64? = some (n : Int)
  names : ∀ name, name ∈ Fields.names fields ↔ name = "length" ∨ ∃ i < n, name = toString i
  elements : ∀ i < n, ∃ v m, Fields.get? (toString i) fields = some v ∧ Element v m

theorem byteLike?_iff {b : Bytes} : byteLike? fields = some b ↔
    ∃ n : Nat, (Fields.get? "length" fields).bind toInt64? = some (n : Int) ∧
      fields.length = n + 1 ∧ (List.range n).mapM (fun i =>
        (Fields.get? (toString i) fields).bind elementByte?) = some b := by
  rw [byteLike?]
  split
  · rename_i k hk
    rw [hk]
    constructor
    · intro h
      obtain ⟨hcount, hb⟩ := Option.ite_none_right_eq_some.mp h
      exact ⟨k, rfl, hcount, hb⟩
    · rintro ⟨n, hn, hcount, hb⟩
      obtain rfl : k = n := Int.ofNat.inj (Option.some_inj.mp hn)
      rw [if_pos hcount, hb]
  · rename_i hother
    refine iff_of_false nofun ?_
    rintro ⟨n, hn, -⟩
    exact hother n hn

theorem ByteLike.byteLike? (h : ByteLike fields n) (hd : Fields.Distinct fields) :
    ∃ b, Value.byteLike? fields = some b := by
  obtain ⟨v, hv, hn⟩ := h.length
  have hbytes : ∀ i ∈ List.range n, ∃ c,
      (Fields.get? (toString i) fields).bind elementByte? = some c := by
    intro i hi
    obtain ⟨w, m, hw, hm⟩ := h.elements i (List.mem_range.mp hi)
    obtain ⟨c, hc, -⟩ := hm.byte
    exact ⟨c, by rw [hw]; exact hc⟩
  obtain ⟨b, hb⟩ := Outcome.exists_mapM_iff.mpr hbytes
  have hcount : fields.length = n + 1 :=
    ((mem_names_iff_indexNames hd).mp fun name => (h.names name).trans mem_indexNames.symm).2
  exact ⟨b, byteLike?_iff.mpr ⟨n, by rw [hv]; exact hn, hcount, hb⟩⟩

theorem exists_byteLike {b : Bytes} (h : byteLike? fields = some b)
    (hd : Fields.Distinct fields) : ∃ n, ByteLike fields n := by
  obtain ⟨n, hn, hcount, hb⟩ := byteLike?_iff.mp h
  obtain ⟨v, hv, hread⟩ := Option.bind_eq_some_iff.mp hn
  have helements : ∀ i < n, ∃ v m, Fields.get? (toString i) fields = some v ∧ Element v m := by
    intro i hi
    obtain ⟨c, hc⟩ := Outcome.exists_mapM_iff.mp ⟨b, hb⟩ i (List.mem_range.mpr hi)
    obtain ⟨w, hw, hbyte⟩ := Option.bind_eq_some_iff.mp hc
    obtain ⟨m, hm⟩ := exists_element hbyte
    exact ⟨w, m, hw, hm⟩
  have hsub : indexNames n ⊆ Fields.names fields := by
    intro name hname
    rw [Fields.mem_names_iff]
    rcases mem_indexNames.mp hname with rfl | ⟨i, hi, rfl⟩
    · exact ⟨v, hv⟩
    · obtain ⟨w, -, hw, -⟩ := helements i hi
      exact ⟨w, hw⟩
  refine ⟨n, ⟨v, hv, hread⟩, fun name => ?_, helements⟩
  exact ((mem_names_iff_indexNames hd).mpr ⟨hsub, hcount⟩ name).trans mem_indexNames

/-- A map is taken for bytes exactly if it has a length that is read as a natural number, the
indices below that, nothing else, and at the indices whole numbers and finite doubles. There are as
many bytes as the length says, and each is its element's number modulo 256, unless that is a double
past the greatest number of sixty-four bits. -/
theorem byteLike_elements (hd : Fields.Distinct fields) :
    ((∃ b, byteLike? fields = some b) ↔ ∃ n, ByteLike fields n) ∧
    ∀ b n, byteLike? fields = some b → ByteLike fields n → b.length = n ∧
      ∀ i (hi : i < b.length) v m, Fields.get? (toString i) fields = some v → Element v m →
        Reduced v m b[i] := by
  refine ⟨⟨fun ⟨b, hb⟩ => exists_byteLike hb hd, fun ⟨n, hn⟩ => hn.byteLike? hd⟩, ?_⟩
  intro b n hb hn
  obtain ⟨k, hk, -, hbytes⟩ := byteLike?_iff.mp hb
  obtain ⟨v, hv, hread⟩ := hn.length
  rw [hv] at hk
  obtain rfl : n = k := Int.ofNat.inj (Option.some_inj.mp (hread.symm.trans hk))
  have hmap := Outcome.mapM_eq_some.mp hbytes
  have hlength : b.length = n := by
    have := congrArg List.length hmap
    rw [List.length_map, List.length_map, List.length_range] at this
    exact this.symm
  refine ⟨hlength, ?_⟩
  intro i hi v m hv hm
  obtain ⟨c, hc, hreduced⟩ := hm.byte
  have hget : (Fields.get? (toString i) fields).bind elementByte? = some b[i] := by
    have hat := congrArg (·[i]?) hmap
    simpa [hi, hlength ▸ hi] using hat
  rw [hv] at hget
  obtain rfl := Option.some_inj.mp (hc.symm.trans hget)
  exact hreduced

/-- An element at two to the sixty-third. -/
def pastWord : Record := [("0", .float ⟨0x43e0000000000000⟩), ("length", .int 1)]

theorem byteLike_elements_past_word :
    Fields.Distinct pastWord ∧ byteLike? pastWord = some [255] ∧ ByteLike pastWord 1 ∧
    Element (.float ⟨0x43e0000000000000⟩) (2 ^ 63) ∧
    Reduced (.float ⟨0x43e0000000000000⟩) (2 ^ 63) 255 := by
  have hd : Fields.Distinct pastWord := show (["0", "length"] : List String).Nodup by decide
  have hbytes : byteLike? pastWord = some [255] := rfl
  have hm : Element (.float ⟨0x43e0000000000000⟩) (2 ^ 63) := by
    have hcut : Binary64.trunc? ⟨0x43e0000000000000⟩ = some (2 ^ 63) := rfl
    obtain ⟨q, hq, hn⟩ := Binary64.trunc?_eq_some_iff.mp hcut
    exact .float hq hn
  obtain ⟨hlike, hbyte⟩ := byteLike_elements hd
  obtain ⟨n, hn⟩ := hlike.mp ⟨[255], hbytes⟩
  obtain ⟨hlength, hreduced⟩ := hbyte [255] n hbytes hn
  obtain rfl : 1 = n := hlength
  exact ⟨hd, hbytes, hn, hm, hreduced 0 Nat.zero_lt_one _ _ rfl hm⟩

end TrieFeed.Value
