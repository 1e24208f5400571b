import TrieFeed.Number.Numeral
import TrieFeed.Proofs.Codec.Header
/-!
# Binary items are read in one way

The strict reader takes back every item from its binary form, whatever bytes follow, and takes
nothing but binary forms. So items differ in their bytes, and no form is the start of another.
-/
namespace TrieFeed

mutual

/-- Numbers of 128 bits, and lengths that an argument can hold. -/
def Item.Fits : Item → Prop
  | .null | .bool _ => True
  | .int n => Numeral.fitsSigned 128 n
  | .bytes b => b.length < Nat.pow 2 64
  | .text s => Utf8.size s < Nat.pow 2 64
  | .list items => items.length < Nat.pow 2 64 ∧ Item.AllFit items
  | .map entries => entries.length < Nat.pow 2 64 ∧ Item.EntriesFit entries

def Item.AllFit : List Item → Prop
  | [] => True
  | item :: rest => item.Fits ∧ Item.AllFit rest

def Item.EntriesFit : List (Item × Item) → Prop
  | [] => True
  | (key, value) :: rest => key.Fits ∧ value.Fits ∧ Item.EntriesFit rest

end

namespace Cbor

/-! ## Numbers -/

theorem width_of_fits {n : Nat} (h : n < Nat.pow 2 127) : width n < Nat.pow 2 64 :=
  Nat.lt_of_le_of_lt (width_le (k := 16) (Nat.lt_trans h (by decide))) (by decide)

theorem fits_ofNat {n : Nat} (h : Numeral.fitsSigned 128 (.ofNat n)) : n < Nat.pow 2 127 := by
  simp only [Numeral.fitsSigned, Bool.and_eq_true, decide_eq_true_eq] at h
  exact Int.ofNat_lt.mp h.2

theorem fits_negSucc {n : Nat} (h : Numeral.fitsSigned 128 (.negSucc n)) :
    n < Nat.pow 2 127 := by
  simp only [Numeral.fitsSigned, Bool.and_eq_true, decide_eq_true_eq, Int.negSucc_eq] at h
  have := h.1
  simp only [Nat.pow_eq, Nat.add_one_sub_one, Nat.reducePow] at this ⊢
  omega

theorem header_append_pos (major n : Nat) (bytes : Bytes) :
    0 < (header major n ++ bytes).length := by
  rw [List.length_append]
  exact Nat.add_pos_left (header_pos ..) _

theorem int_length (n : Int) : 0 < (int n).length := by
  have hnumber : ∀ major bignumTag k, 0 < (number major bignumTag k).length := by
    intro major bignumTag k
    unfold number
    split
    · exact header_pos ..
    · exact header_append_pos ..
  cases n <;> exact hnumber ..

theorem encode_length (item : Item) : 0 < (encode item).length := by
  cases item with
  | null | bool => simp [encode]
  | int n => simpa [encode] using int_length n
  | bytes b => rw [encode, byteString]; exact header_append_pos ..
  | text s => rw [encode]; exact header_append_pos ..
  | list items => rw [encode]; exact header_append_pos ..
  | map entries => rw [encode]; exact header_append_pos ..

theorem item?_header {levels major n : Nat} (rest : Bytes) (hm : major < 8)
    (hn : n < Nat.pow 2 64) :
    item? (levels + 1) (header major n ++ rest) = body? (item? levels) major n rest := by
  rw [item?, header?_header rest hm hn, Option.bind_some]

theorem item?_simple (n levels : Nat) (rest : Bytes) {item : Item} (h : simple? n = some item)
    (hn : n < Nat.pow 2 64) : item? (levels + 1) (header 7 n ++ rest) = some (item, rest) := by
  rw [item?_header rest (by decide) hn, body?, h]
  · rfl
  all_goals decide

theorem item?_int (levels : Nat) (n : Int) (rest : Bytes) (h : Numeral.fitsSigned 128 n) :
    item? (levels + 1) (int n ++ rest) = some (.int n, rest) := by
  cases n with
  | ofNat n =>
    rw [int, number]
    by_cases hn : n < Nat.pow 2 64
    · rw [if_pos hn, item?_header rest (by decide) hn]
      rfl
    · rw [if_neg hn, tag, List.append_assoc, item?_header _ (by decide) (by decide), body?, tagged?,
        magnitude?_byteString rest (Nat.not_lt.mp hn) (width_of_fits (fits_ofNat h))]
      rfl
  | negSucc n =>
    rw [int, number]
    by_cases hn : n < Nat.pow 2 64
    · rw [if_pos hn, item?_header rest (by decide) hn]
      rfl
    · rw [if_neg hn, tag, List.append_assoc, item?_header _ (by decide) (by decide), body?, tagged?,
        magnitude?_byteString rest (Nat.not_lt.mp hn) (width_of_fits (fits_negSucc h))]
      rfl

/-! ## Sequences -/

section

variable {α : Type} {read : Bytes → Option (α × Bytes)} {bytes after rest : Bytes}

theorem pair?_intro {key value : α} (hk : read bytes = some (key, after))
    (hv : read after = some (value, rest)) : pair? read bytes = some ((key, value), rest) := by
  simp only [pair?, hk, hv, Option.bind_some, Option.map_some]

theorem pair?_elim {entry : α × α} (h : pair? read bytes = some (entry, rest)) :
    ∃ after, read bytes = some (entry.1, after) ∧ read after = some (entry.2, rest) := by
  obtain ⟨⟨key, after⟩, hk, h⟩ := Option.bind_eq_some_iff.mp h
  obtain ⟨⟨value, rest⟩, hv, h⟩ := Option.map_eq_some_iff.mp h
  cases h
  exact ⟨after, hk, hv⟩

theorem many?_cons {a : α} {as : List α} (ha : read bytes = some (a, after))
    (has : many? read as.length after = some (as, rest)) :
    many? read (a :: as).length bytes = some (a :: as, rest) := by
  simp only [List.length_cons, many?, ha, has, Option.bind_some, Option.map_some]

theorem many?_succ {n : Nat} {as : List α} (h : many? read (n + 1) bytes = some (as, rest)) :
    ∃ a tail after, as = a :: tail ∧ read bytes = some (a, after) ∧
      many? read n after = some (tail, rest) := by
  obtain ⟨⟨a, after⟩, ha, h⟩ := Option.bind_eq_some_iff.mp h
  obtain ⟨⟨tail, rest⟩, ht, h⟩ := Option.map_eq_some_iff.mp h
  cases h
  exact ⟨a, tail, after, rfl, ha, ht⟩

end

/-! ## What is written is read back -/

mutual

theorem item?_encode : ∀ (item : Item) (levels : Nat) (rest : Bytes), item.Fits →
    (encode item).length ≤ levels → item? levels (encode item ++ rest) = some (item, rest)
  | item, 0, _, _, hl => absurd (encode_length item) (by omega)
  | .null, levels + 1, rest, _, _ => by
    exact item?_simple 22 levels rest rfl (by decide)
  | .bool true, levels + 1, rest, _, _ => by
    exact item?_simple 21 levels rest rfl (by decide)
  | .bool false, levels + 1, rest, _, _ => by
    exact item?_simple 20 levels rest rfl (by decide)
  | .int n, levels + 1, rest, h, _ => by
    rw [Item.Fits] at h
    rw [encode, item?_int levels n rest h]
  | .bytes b, levels + 1, rest, h, _ => by
    rw [Item.Fits] at h
    rw [encode, byteString, List.append_assoc, item?_header _ (by decide) h, body?, take?_append]
    rfl
  | .text s, levels + 1, rest, h, _ => by
    rw [Item.Fits] at h
    rw [Utf8.size] at h
    rw [encode, List.append_assoc, item?_header _ (by decide) h, body?, take?_append,
      Option.bind_some]
    simp only [Utf8.decode?_encode, Option.map_some]
  | .list items, levels + 1, rest, h, hl => by
    rw [Item.Fits] at h
    have hp := header_pos 4 items.length
    rw [encode, List.length_append] at hl
    rw [encode, List.append_assoc, item?_header _ (by decide) h.1, body?,
      many?_encodeItems items levels rest h.2 (by omega)]
    rfl
  | .map entries, levels + 1, rest, h, hl => by
    rw [Item.Fits] at h
    have hp := header_pos 5 entries.length
    rw [encode, List.length_append] at hl
    rw [encode, List.append_assoc, item?_header _ (by decide) h.1, body?,
      many?_encodeEntries entries levels rest h.2 (by omega)]
    rfl

theorem many?_encodeItems : ∀ (items : List Item) (levels : Nat) (rest : Bytes),
    Item.AllFit items → (encodeItems items).length ≤ levels →
    many? (item? levels) items.length (encodeItems items ++ rest) = some (items, rest)
  | [], _, _, _, _ => by rw [encodeItems]; rfl
  | item :: items, levels, rest, h, hl => by
    rw [Item.AllFit] at h
    rw [encodeItems, List.length_append] at hl
    rw [encodeItems, List.append_assoc]
    exact many?_cons (item?_encode item levels _ h.1 (by omega))
      (many?_encodeItems items levels rest h.2 (by omega))

theorem many?_encodeEntries : ∀ (entries : List (Item × Item)) (levels : Nat) (rest : Bytes),
    Item.EntriesFit entries → (encodeEntries entries).length ≤ levels →
    many? (pair? (item? levels)) entries.length (encodeEntries entries ++ rest) =
      some (entries, rest)
  | [], _, _, _, _ => by rw [encodeEntries]; rfl
  | (key, value) :: entries, levels, rest, h, hl => by
    rw [Item.EntriesFit] at h
    rw [encodeEntries, List.length_append, List.length_append] at hl
    rw [encodeEntries, List.append_assoc, List.append_assoc]
    exact many?_cons (pair?_intro (item?_encode key levels _ h.1 (by omega))
      (item?_encode value levels _ h.2.1 (by omega)))
      (many?_encodeEntries entries levels rest h.2.2 (by omega))

end

/-! ## What is read was written -/

theorem tag_magnitude {major bignumTag n : Nat} {bytes rest : Bytes}
    (h : magnitude? bytes = some (n, rest)) :
    header 6 bignumTag ++ bytes = number major bignumTag n ++ rest := by
  obtain ⟨rfl, hlow⟩ := magnitude?_sound h
  rw [number, if_neg (Nat.not_lt.mpr hlow), tag, List.append_assoc]

theorem tagged?_sound {n : Nat} {bytes rest : Bytes} {item : Item}
    (h : tagged? n bytes = some (item, rest)) : header 6 n ++ bytes = encode item ++ rest := by
  unfold tagged? at h
  split at h
  · obtain ⟨⟨k, after⟩, hk, h⟩ := Option.map_eq_some_iff.mp h
    cases h
    rw [tag_magnitude hk, encode, int]
  · obtain ⟨⟨k, after⟩, hk, h⟩ := Option.map_eq_some_iff.mp h
    cases h
    rw [tag_magnitude hk, encode, int]
  · cases h

theorem simple?_sound {n : Nat} {item : Item} (h : simple? n = some item) :
    header 7 n = encode item := by
  unfold simple? at h
  split at h <;> cases h <;> rw [encode] <;> rfl

section

variable {read : Bytes → Option (Item × Bytes)}
  (hread : ∀ bytes item rest, read bytes = some (item, rest) → bytes = encode item ++ rest)

include hread

theorem many?_items_sound (n : Nat) (bytes : Bytes) (items : List Item) (rest : Bytes)
    (h : many? read n bytes = some (items, rest)) :
    items.length = n ∧ bytes = encodeItems items ++ rest := by
  induction n generalizing bytes items with
  | zero => cases h; exact ⟨rfl, rfl⟩
  | succ n ih =>
    obtain ⟨item, tail, after, rfl, hi, ht⟩ := many?_succ h
    obtain ⟨rfl, rfl⟩ := ih _ _ ht
    rw [hread _ _ _ hi, encodeItems, List.append_assoc]
    exact ⟨rfl, rfl⟩

theorem many?_entries_sound (n : Nat) (bytes : Bytes) (entries : List (Item × Item))
    (rest : Bytes) (h : many? (pair? read) n bytes = some (entries, rest)) :
    entries.length = n ∧ bytes = encodeEntries entries ++ rest := by
  induction n generalizing bytes entries with
  | zero => cases h; exact ⟨rfl, rfl⟩
  | succ n ih =>
    obtain ⟨entry, tail, after, rfl, he, ht⟩ := many?_succ h
    obtain ⟨between, hk, hv⟩ := pair?_elim he
    obtain ⟨rfl, rfl⟩ := ih _ _ ht
    rw [hread _ _ _ hk, hread _ _ _ hv, encodeEntries, List.append_assoc, List.append_assoc]
    exact ⟨rfl, rfl⟩

theorem body?_sound {major n : Nat} {bytes rest : Bytes} {item : Item} (hm : major < 8)
    (hn : n < Nat.pow 2 64) (h : body? read major n bytes = some (item, rest)) :
    header major n ++ bytes = encode item ++ rest := by
  unfold body? at h
  split at h
  · cases h
    rw [encode, int, number, if_pos hn]
  · cases h
    rw [encode, int, number, if_pos hn]
  · obtain ⟨⟨b, after⟩, ht, h⟩ := Option.map_eq_some_iff.mp h
    cases h
    obtain ⟨rfl, rfl⟩ := take?_sound ht
    rw [encode, byteString, List.append_assoc]
  · obtain ⟨⟨b, after⟩, ht, h⟩ := Option.bind_eq_some_iff.mp h
    obtain ⟨s, hs, h⟩ := Option.map_eq_some_iff.mp h
    cases h
    obtain ⟨rfl, rfl⟩ := take?_sound ht
    rw [Utf8.encode_of_decode? hs, encode, List.append_assoc]
  · obtain ⟨⟨items, after⟩, ht, h⟩ := Option.map_eq_some_iff.mp h
    cases h
    obtain ⟨rfl, rfl⟩ := many?_items_sound hread _ _ _ _ ht
    rw [encode, List.append_assoc]
  · obtain ⟨⟨entries, after⟩, ht, h⟩ := Option.map_eq_some_iff.mp h
    cases h
    obtain ⟨rfl, rfl⟩ := many?_entries_sound hread _ _ _ _ ht
    rw [encode, List.append_assoc]
  · exact tagged?_sound h
  · obtain ⟨simple, hs, h⟩ := Option.map_eq_some_iff.mp h
    cases h
    have h7 : major = 7 := by grind
    rw [h7, simple?_sound hs]

end

theorem item?_sound (levels : Nat) (bytes : Bytes) (item : Item) (rest : Bytes)
    (h : item? levels bytes = some (item, rest)) : bytes = encode item ++ rest := by
  induction levels generalizing bytes item rest with
  | zero => cases h
  | succ levels ih =>
    obtain ⟨⟨⟨major, n⟩, after⟩, hh, hb⟩ := Option.bind_eq_some_iff.mp h
    obtain ⟨rfl, hm, hn⟩ := header?_sound hh
    exact body?_sound ih hm hn hb

theorem read?_encode {item : Item} (rest : Bytes) (h : item.Fits) :
    read? (encode item ++ rest) = some (item, rest) :=
  item?_encode item _ rest h (by rw [List.length_append]; exact Nat.le_add_right _ _)

theorem encode_append_inj {item other : Item} {rest tail : Bytes} (hi : item.Fits)
    (ho : other.Fits) (h : encode item ++ rest = encode other ++ tail) :
    item = other ∧ rest = tail := by
  have hr := read?_encode rest hi
  rw [h, read?_encode tail ho] at hr
  cases hr
  exact ⟨rfl, rfl⟩

/-- Every item is read back from its binary form, nothing but a binary form is read, and the binary
form of an item is the start of no other's. -/
theorem encode_uniquely_readable :
    (∀ item rest, item.Fits → read? (encode item ++ rest) = some (item, rest)) ∧
    (∀ bytes item rest, read? bytes = some (item, rest) → bytes = encode item ++ rest) ∧
    ∀ item other rest tail, item.Fits → other.Fits →
      encode item ++ rest = encode other ++ tail → item = other ∧ rest = tail :=
  ⟨fun _ rest h => read?_encode rest h, fun _ _ _ h => item?_sound _ _ _ _ h,
    fun _ _ _ _ hi ho h => encode_append_inj hi ho h⟩

/-- The least number of 128 bits, and a name of one letter on two bytes. -/
def leastEntry : Item × Item :=
  (.int (-(Nat.pow 2 127)), .text "é")

/-- The least number past 64 bits, and a list. -/
def largeEntry : Item × Item :=
  (.int (Nat.pow 2 64), .list [.null, .bool true])

theorem uniquely_readable_numbers :
    (Item.map [leastEntry, largeEntry]).Fits ∧ (Item.map [largeEntry, leastEntry]).Fits ∧
      read? (encode (.map [leastEntry, largeEntry]) ++ [0]) =
        some (.map [leastEntry, largeEntry], [0]) ∧
      encode (.map [leastEntry, largeEntry]) ≠ encode (.map [largeEntry, leastEntry]) ∧
      read? [0x20, 0] = some (.int (-1), [0]) ∧ [0x20, 0] = encode (.int (-1)) ++ [0] := by
  have hl : leastEntry.1.Fits ∧ leastEntry.2.Fits := by
    simp only [leastEntry, Item.Fits]
    decide
  have hg : largeEntry.1.Fits ∧ largeEntry.2.Fits := by
    simp only [largeEntry, Item.Fits, Item.AllFit]
    decide
  have hm : (Item.map [leastEntry, largeEntry]).Fits := by
    rw [Item.Fits]
    exact ⟨by decide, hl.1, hl.2, hg.1, hg.2, trivial⟩
  have hw : (Item.map [largeEntry, leastEntry]).Fits := by
    rw [Item.Fits]
    exact ⟨by decide, hg.1, hg.2, hl.1, hl.2, trivial⟩
  have hr : read? [0x20, 0] = some (.int (-1), [0]) := rfl
  refine ⟨hm, hw, encode_uniquely_readable.1 _ _ hm, ?_, hr,
    encode_uniquely_readable.2.1 _ _ _ hr⟩
  -- Equal bytes would give equal maps, and the entries of the two stand in different orders.
  intro h
  have he := (encode_uniquely_readable.2.2 _ _ [] [] hm hw (by rw [h])).1
  simp only [leastEntry, largeEntry, Item.map.injEq, List.cons.injEq, Prod.mk.injEq,
    Item.int.injEq] at he
  exact absurd he.1.1 (by decide)

end Cbor

end TrieFeed
