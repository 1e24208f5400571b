import TrieFeed.Codec.Hex
import TrieFeed.Proofs.Text.Blank
import TrieFeed.Proofs.Text.Utf8
/-!
# Hexadecimal text is read back

Two digits for each byte, of either case and with or without a mark in front, are read as the bytes
that are written with these digits in lowercase, and nothing else is read. So a text in capitals is
read as the text itself.
-/
namespace TrieFeed.Hex

open Text (Visible)

/-! ## Digits -/

/-- The two digits that a byte is written with. -/
def byteDigits (b : UInt8) : List Char := [digit (b.toNat / 16), digit (b.toNat % 16)]

theorem toNat_digit : ∀ n < 16, (digit n).toNat = if n < 10 then 48 + n else 87 + n := by decide

/-- The byte of a character, as it is read. -/
def byteOf (c : Char) : UInt8 := .ofNat c.toNat

section

variable {c : Char} {n : Nat}

/-- The characters that stand for a digit. -/
theorem toNat_of_lower (hn : n < 16) (hc : c.toLower = digit n) :
    c.toNat = 48 + n ∧ n < 10 ∨ (c.toNat = 87 + n ∨ c.toNat = 55 + n) ∧ 10 ≤ n := by
  have ht := congrArg Char.toNat hc
  rw [Text.toNat_toLower, toNat_digit n hn] at ht
  by_cases hu : c.isUpper
  · have := Text.isUpper_iff.mp hu
    rw [if_pos hu] at ht
    split at ht <;> omega
  · rw [if_neg hu] at ht
    split at ht <;> omega

theorem visible_of_lower (hn : n < 16) (hc : c.toLower = digit n) : Visible c := by
  have := toNat_of_lower hn hc
  unfold Visible
  omega

theorem toNat_byteOf (hc : Visible c) : (byteOf c).toNat = c.toNat :=
  Utf8.toNat_ofNat (Nat.lt_of_le_of_lt hc.2 (by decide))

theorem value?_of_lower (hn : n < 16) (hc : c.toLower = digit n) : value? (byteOf c) = some n := by
  unfold value?
  dsimp only
  rw [toNat_byteOf (visible_of_lower hn hc)]
  rcases toNat_of_lower hn hc with ⟨hd, hlt⟩ | ⟨hd | hd, hle⟩
  · rw [hd, if_pos (by omega), Nat.add_sub_cancel_left]
  · rw [hd, if_neg (by omega), if_pos (by omega), Nat.add_sub_cancel_left]
  · rw [hd, if_neg (by omega), if_neg (by omega), if_pos (by omega), Nat.add_sub_cancel_left]

end

/-! ## Texts -/

/-- Digits of either case that write bytes. -/
def Writes (cs : List Char) (bytes : Bytes) : Prop :=
  cs.map Char.toLower = bytes.flatMap byteDigits

namespace Writes

variable {cs : List Char} {bytes : Bytes}

theorem of_lower {t : String} (h : Text.asciiLower t = encode bytes) : Writes t.toList bytes :=
  String.ofList_injective h

theorem uncons {b : UInt8} (h : Writes cs (b :: bytes)) : ∃ c d rest, cs = c :: d :: rest ∧
    c.toLower = digit (b.toNat / 16) ∧ d.toLower = digit (b.toNat % 16) ∧ Writes rest bytes := by
  unfold Writes at h
  rw [List.flatMap_cons] at h
  match cs, h with
  | [_], h => nomatch (List.cons.inj h).2
  | c :: d :: rest, h =>
    obtain ⟨hc, h⟩ := List.cons.inj h
    obtain ⟨hd, h⟩ := List.cons.inj h
    exact ⟨c, d, rest, rfl, hc, hd, h⟩

theorem nil (h : Writes cs []) : cs = [] := List.map_eq_nil_iff.mp h

theorem digits (h : Writes cs bytes) : ∀ c ∈ cs, ∃ n < 16, c.toLower = digit n := by
  induction bytes generalizing cs with
  | nil =>
    rw [h.nil]
    nofun
  | cons b bytes ih =>
    obtain ⟨c, d, rest, rfl, hc, hd, hrest⟩ := h.uncons
    have hb := b.toNat_lt
    refine List.forall_mem_cons.mpr ⟨⟨_, by omega, hc⟩, ?_⟩
    exact List.forall_mem_cons.mpr ⟨⟨_, by omega, hd⟩, ih hrest⟩

theorem visible (h : Writes cs bytes) : ∀ c ∈ cs, Visible c := by
  intro c hc
  obtain ⟨n, hn, hd⟩ := h.digits c hc
  exact visible_of_lower hn hd

theorem length (h : Writes cs bytes) : cs.length = 2 * bytes.length := by
  induction bytes generalizing cs with
  | nil =>
    rw [h.nil]
    rfl
  | cons b bytes ih =>
    obtain ⟨c, d, rest, rfl, -, -, hrest⟩ := h.uncons
    rw [List.length_cons, List.length_cons, ih hrest, List.length_cons]
    rfl

theorem pairs (h : Writes cs bytes) (offset : Nat) : pairs offset (cs.map byteOf) = .ok bytes := by
  induction bytes generalizing cs offset with
  | nil =>
    rw [h.nil]
    rfl
  | cons b bytes ih =>
    obtain ⟨c, d, rest, rfl, hc, hd, hrest⟩ := h.uncons
    have hb := b.toNat_lt
    rw [List.map_cons, List.map_cons, Hex.pairs, value?_of_lower (by omega) hc,
      value?_of_lower (Nat.mod_lt _ (by decide)) hd]
    dsimp only
    rw [ih hrest]
    dsimp only
    rw [Nat.div_add_mod, UInt8.ofNat_toNat]

/-- Digits are not taken for a mark. -/
theorem dropMark (h : Writes cs bytes) : dropMark (cs.map byteOf) = cs.map byteOf := by
  cases bytes with
  | nil =>
    rw [h.nil]
    rfl
  | cons b bytes =>
    obtain ⟨c, d, rest, rfl, -, hd, -⟩ := h.uncons
    have hmod : b.toNat % 16 < 16 := Nat.mod_lt _ (by decide)
    have hn := toNat_byteOf (visible_of_lower hmod hd)
    have hrange := toNat_of_lower hmod hd
    rw [List.map_cons, List.map_cons]
    unfold Hex.dropMark
    split
    · rename_i he
      have hx : byteOf d = 120 := (List.cons.inj (List.cons.inj he).2).1
      rw [hx] at hn
      have : (120 : UInt8).toNat = 120 := rfl
      omega
    · rename_i he
      have hx : byteOf d = 88 := (List.cons.inj (List.cons.inj he).2).1
      rw [hx] at hn
      have : (88 : UInt8).toNat = 88 := rfl
      omega
    · rfl

end Writes

/-- What may stand in front of the digits. -/
def IsMark (mark : String) : Prop := mark = "" ∨ mark = "0x" ∨ mark = "0X"

theorem IsMark.visible {mark : String} (h : IsMark mark) : ∀ c ∈ mark.toList, Visible c := by
  have hzero : Visible '0' := ⟨by decide, by decide⟩
  rcases h with rfl | rfl | rfl
  · nofun
  · exact List.forall_mem_cons.mpr ⟨hzero, List.forall_mem_singleton.mpr ⟨by decide, by decide⟩⟩
  · exact List.forall_mem_cons.mpr ⟨hzero, List.forall_mem_singleton.mpr ⟨by decide, by decide⟩⟩

section

variable {mark t : String} {bytes : Bytes} (hm : IsMark mark) (h : Writes t.toList bytes)
include hm h

theorem visible_of_mark : ∀ c ∈ mark.toList ++ t.toList, Visible c :=
  List.forall_mem_append.mpr ⟨hm.visible, h.visible⟩

/-- The blanks around digits are all that trimming takes off. -/
theorem trimmed_between {before after : String} (hb : Text.allBlank before)
    (ha : Text.allBlank after) : Text.trimmed (before ++ (mark ++ t) ++ after) = mark ++ t := by
  have htrim := Text.trim_between (List.all_eq_true.mp hb)
    (fun c hc => (visible_of_mark hm h c hc).isBlank) (List.all_eq_true.mp ha)
  rw [Text.trimmed, String.toList_append, String.toList_append, String.toList_append, htrim,
    String.ofList_append, String.ofList_toList, String.ofList_toList]

theorem trimmed_self : Text.trimmed (mark ++ t) = mark ++ t := by
  have ht : Text.trimmed ("" ++ (mark ++ t) ++ "") = mark ++ t := trimmed_between hm h rfl rfl
  rwa [String.empty_append, String.append_empty] at ht

theorem digits_of_trimmed {s : String} (hs : Text.trimmed s = mark ++ t) :
    digits s = t.toList.map byteOf := by
  have hascii : ∀ c ∈ mark.toList ++ t.toList, c.toNat < 0x80 := fun c hc =>
    Nat.lt_of_le_of_lt (visible_of_mark hm h c hc).2 (by decide)
  have hbytes : Utf8.encode (mark ++ t) = (mark.toList ++ t.toList).map byteOf := by
    rw [← String.ofList_toList (s := mark ++ t), String.toList_append, Utf8.encode_ascii hascii]
    rfl
  rw [digits, hs, hbytes, List.map_append]
  rcases hm with rfl | rfl | rfl
  · exact h.dropMark
  · rfl
  · rfl

/-- Bytes are read from their digits in any case, with or without a mark and between blanks. -/
theorem decode_of_trimmed {s : String} (hs : Text.trimmed s = mark ++ t) : decode s = .ok bytes := by
  unfold decode
  dsimp only
  rw [digits_of_trimmed hm h hs, List.length_map, h.length, if_neg (by omega), h.pairs]

end

/-! ## Nothing else is read -/

/-- The character of a byte, as it is read. -/
def charOf (b : UInt8) : Char := .ofUInt8 b

theorem lower_of_toNat {c : Char} {n : Nat} (hn : n < 16)
    (h : c.toNat = 48 + n ∧ n < 10 ∨ (c.toNat = 87 + n ∨ c.toNat = 55 + n) ∧ 10 ≤ n) :
    c.toLower = digit n := by
  refine Char.toNat_inj.mp ?_
  rw [Text.toNat_toLower, toNat_digit n hn]
  split
  · rename_i hu
    rw [Text.isUpper_iff] at hu
    split <;> omega
  · rename_i hu
    rw [Text.isUpper_iff] at hu
    split <;> omega

theorem lower_of_value? {b : UInt8} {n : Nat} (h : value? b = some n) :
    n < 16 ∧ (charOf b).toLower = digit n ∧ byteOf (charOf b) = b := by
  have hb := b.toNat_lt
  have hc : (charOf b).toNat = b.toNat := UInt8.toNat_toUInt32 b
  have hbyte : byteOf (charOf b) = b := by
    rw [byteOf, hc, UInt8.ofNat_toNat]
  have hn : n < 16 ∧ (b.toNat = 48 + n ∧ n < 10 ∨
      (b.toNat = 87 + n ∨ b.toNat = 55 + n) ∧ 10 ≤ n) := by
    simp only [value?, ite_eq_iff, Option.some.injEq, reduceCtorEq, and_false, or_false] at h
    omega
  exact ⟨hn.1, lower_of_toNat hn.1 (hc ▸ hn.2), hbyte⟩

theorem exists_writes {offset : Nat} {ds bytes : Bytes} (h : pairs offset ds = .ok bytes) :
    ∃ cs, ds = cs.map byteOf ∧ Writes cs bytes := by
  fun_induction pairs offset ds generalizing bytes with
  | case1 =>
    cases h
    exact ⟨[], rfl, rfl⟩
  | case3 offset high low rest hi lo hhigh hlow all hrest ih =>
    cases h
    obtain ⟨cs, hcs, hw⟩ := ih hrest
    obtain ⟨hi16, hhi, hhb⟩ := lower_of_value? hhigh
    obtain ⟨lo16, hlo, hlb⟩ := lower_of_value? hlow
    refine ⟨charOf high :: charOf low :: cs, ?_, ?_⟩
    · rw [List.map_cons, List.map_cons, hhb, hlb, hcs]
    · have hbyte : (UInt8.ofNat (16 * hi + lo)).toNat = 16 * hi + lo :=
        Utf8.toNat_ofNat (by omega)
      have hdigits : byteDigits (.ofNat (16 * hi + lo)) = [digit hi, digit lo] := by
        rw [byteDigits, hbyte, show (16 * hi + lo) / 16 = hi by omega,
          show (16 * hi + lo) % 16 = lo by omega]
      rw [Writes, List.map_cons, List.map_cons, hhi, hlo, hw, List.flatMap_cons, hdigits]
      rfl
  | _ => cases h

theorem exists_mark (l : Bytes) :
    ∃ mark, IsMark mark ∧ l = Utf8.encode mark ++ dropMark l := by
  fun_cases dropMark l with
  | case1 rest => exact ⟨"0x", .inr (.inl rfl), rfl⟩
  | case2 rest => exact ⟨"0X", .inr (.inr rfl), rfl⟩
  | case3 => exact ⟨"", .inl rfl, rfl⟩

/-- What is read are digits of either case, with or without a mark and between blanks. -/
theorem exists_writes_of_decode {s : String} {bytes : Bytes} (h : decode s = .ok bytes) :
    ∃ mark t : String, IsMark mark ∧ Writes t.toList bytes ∧ Text.trimmed s = mark ++ t := by
  unfold decode at h
  dsimp only at h
  split at h
  · cases h
  · obtain ⟨cs, hds, hw⟩ := exists_writes h
    obtain ⟨mark, hm, hmark⟩ := exists_mark (Utf8.encode (Text.trimmed s))
    have hascii : ∀ c ∈ cs, c.toNat < 0x80 := fun c hc =>
      Nat.lt_of_le_of_lt (hw.visible c hc).2 (by decide)
    have hdigits : Utf8.encode (.ofList cs) = dropMark (Utf8.encode (Text.trimmed s)) :=
      (Utf8.encode_ascii hascii).trans hds.symm
    refine ⟨mark, .ofList cs, hm, String.toList_ofList.symm ▸ hw, Utf8.encode_inj ?_⟩
    rw [Utf8.encode_append, hdigits, ← hmark]

/-! ## Letter case -/

theorem Writes.upper {cs : List Char} {bytes : Bytes} (h : Writes cs bytes) :
    Writes (cs.map Char.toUpper) bytes := by
  rw [Writes, List.map_map]
  exact (List.map_congr_left fun c _ => Text.toLower_toUpper c).trans h

theorem IsMark.upper {mark : String} (h : IsMark mark) : IsMark (Text.asciiUpper mark) := by
  rcases h with rfl | rfl | rfl
  · exact .inl rfl
  · exact .inr (.inr rfl)
  · exact .inr (.inr rfl)

/-- Digits in capitals are read as the same bytes. -/
theorem decode_asciiUpper {s : String} {bytes : Bytes} (h : decode s = .ok bytes) :
    decode (Text.asciiUpper s) = .ok bytes := by
  obtain ⟨mark, t, hm, hw, hs⟩ := exists_writes_of_decode h
  have hu : Writes (Text.asciiUpper t).toList bytes := by
    rw [Text.asciiUpper, String.toList_ofList]
    exact hw.upper
  refine decode_of_trimmed hm.upper hu ?_
  rw [Text.trimmed_asciiUpper, hs, Text.asciiUpper_append]

end TrieFeed.Hex
