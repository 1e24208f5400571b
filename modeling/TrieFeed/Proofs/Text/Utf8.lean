import TrieFeed.Text.Utf8
/-!
# Text and bytes determine each other

Strict decoding accepts exactly what encoding writes, so each text has one form in bytes.
-/
namespace TrieFeed.Utf8

theorem toNat_lt (c : Char) : c.toNat < 0x110000 := by
  rcases c.valid with h | ⟨_, h⟩
  · exact Nat.lt_trans h (by decide)
  · exact h

theorem toNat_ofNat {n : Nat} (h : n < 256) : (UInt8.ofNat n).toNat = n :=
  UInt8.toNat_ofNat_of_lt' h

theorem ofNat_eq {b : UInt8} {n : Nat} (h : b.toNat = n) : UInt8.ofNat n = b := by
  rw [← h]
  exact UInt8.ofNat_toNat

theorem char?_toNat {least : Nat} {c : Char} (h : least ≤ c.toNat) :
    char? least c.toNat = some c := by
  have hv : c.toNat.isValidChar := c.valid
  simp only [char?, hv, dif_pos, h, if_pos, Option.some.injEq]
  exact Char.ext (UInt32.ofNat_toNat ..)

theorem char?_sound {least n : Nat} {c : Char} (h : char? least n = some c) :
    c.toNat = n ∧ least ≤ n := by
  unfold char? at h
  split at h
  · rename_i hv
    split at h
    · rename_i hl
      cases h
      refine ⟨?_, hl⟩
      rcases hv with hv | ⟨_, hv⟩ <;>
        exact UInt32.toNat_ofNat_of_lt' (Nat.lt_trans hv (by decide))
    · cases h
  · cases h

theorem continuation?_ofNat {n : Nat} (h : n < 64) :
    continuation? (.ofNat (0x80 + n)) = some n := by
  have hb : (UInt8.ofNat (0x80 + n)).toNat = 0x80 + n := toNat_ofNat (by omega)
  rw [continuation?, hb, if_pos (by omega)]
  congr 1
  omega

theorem continuation?_sound {b : UInt8} {n : Nat} (h : continuation? b = some n) :
    b.toNat = 0x80 + n ∧ n < 64 := by
  unfold continuation? at h
  split at h
  · cases h; omega
  · cases h

/-! ## The four forms of a character -/

section

variable {a b d e : UInt8} {rest : Bytes} {y z w : Nat}

theorem decodeChars?_one (ha : a.toNat < 0x80) : decodeChars? (a :: rest) =
    (char? 0 a.toNat).bind fun c => (decodeChars? rest).map (c :: ·) := by
  rw [decodeChars?.eq_def]
  simp only [ha, if_pos]

theorem decodeChars?_two (ha : a.toNat / 32 = 6) (hb : continuation? b = some y) :
    decodeChars? (a :: b :: rest) = (char? 0x80 (a.toNat % 32 * 64 + y)).bind fun c =>
      (decodeChars? rest).map (c :: ·) := by
  have h₁ : ¬a.toNat < 0x80 := by omega
  rw [decodeChars?.eq_def]
  dsimp only
  rw [if_neg h₁, if_pos ha, hb, Option.bind_some]

theorem decodeChars?_three (ha : a.toNat / 16 = 14) (hb : continuation? b = some y)
    (hd : continuation? d = some z) : decodeChars? (a :: b :: d :: rest) =
    (char? 0x800 (a.toNat % 16 * 4096 + y * 64 + z)).bind fun c =>
      (decodeChars? rest).map (c :: ·) := by
  have h₁ : ¬a.toNat < 0x80 := by omega
  have h₂ : ¬a.toNat / 32 = 6 := by omega
  rw [decodeChars?.eq_def]
  dsimp only
  rw [if_neg h₁, if_neg h₂, if_pos ha, hb, Option.bind_some, hd, Option.bind_some]

theorem decodeChars?_four (ha : a.toNat / 8 = 30) (hb : continuation? b = some y)
    (hd : continuation? d = some z) (he : continuation? e = some w) :
    decodeChars? (a :: b :: d :: e :: rest) =
    (char? 0x10000 (a.toNat % 8 * 262144 + y * 4096 + z * 64 + w)).bind fun c =>
      (decodeChars? rest).map (c :: ·) := by
  have h₁ : ¬a.toNat < 0x80 := by omega
  have h₂ : ¬a.toNat / 32 = 6 := by omega
  have h₃ : ¬a.toNat / 16 = 14 := by omega
  rw [decodeChars?.eq_def]
  dsimp only
  rw [if_neg h₁, if_neg h₂, if_neg h₃, if_pos ha, hb, Option.bind_some, hd, Option.bind_some, he,
    Option.bind_some]

end

/-- One character is read back and what follows is left to be read. -/
theorem decodeChars?_encodeChar (c : Char) (rest : Bytes) :
    decodeChars? (encodeChar c ++ rest) = (decodeChars? rest).map (c :: ·) := by
  have hc := toNat_lt c
  unfold encodeChar
  by_cases h₁ : c.toNat < 0x80
  · have ha : (UInt8.ofNat c.toNat).toNat = c.toNat := toNat_ofNat (by omega)
    simp only [h₁, if_pos, List.cons_append, List.nil_append]
    rw [decodeChars?_one (by omega), ha, char?_toNat (Nat.zero_le _), Option.bind_some]
  by_cases h₂ : c.toNat < 0x800
  · have ha : (UInt8.ofNat (0xc0 + c.toNat / 64)).toNat = 0xc0 + c.toNat / 64 :=
      toNat_ofNat (by omega)
    have hn : (0xc0 + c.toNat / 64) % 32 * 64 + c.toNat % 64 = c.toNat := by omega
    have hy := continuation?_ofNat (n := c.toNat % 64) (by omega)
    simp only [h₁, h₂, if_pos, if_false, List.cons_append, List.nil_append]
    rw [decodeChars?_two (by omega) hy, ha, hn, char?_toNat (by omega), Option.bind_some]
  by_cases h₃ : c.toNat < 0x10000
  · have ha : (UInt8.ofNat (0xe0 + c.toNat / 4096)).toNat = 0xe0 + c.toNat / 4096 :=
      toNat_ofNat (by omega)
    have hn : (0xe0 + c.toNat / 4096) % 16 * 4096 + c.toNat / 64 % 64 * 64 + c.toNat % 64 =
        c.toNat := by omega
    have hy := continuation?_ofNat (n := c.toNat / 64 % 64) (by omega)
    have hz := continuation?_ofNat (n := c.toNat % 64) (by omega)
    simp only [h₁, h₂, h₃, if_pos, if_false, List.cons_append, List.nil_append]
    rw [decodeChars?_three (by omega) hy hz, ha, hn, char?_toNat (by omega), Option.bind_some]
  · have ha : (UInt8.ofNat (0xf0 + c.toNat / 262144)).toNat = 0xf0 + c.toNat / 262144 :=
      toNat_ofNat (by omega)
    have hn : (0xf0 + c.toNat / 262144) % 8 * 262144 + c.toNat / 4096 % 64 * 4096 +
        c.toNat / 64 % 64 * 64 + c.toNat % 64 = c.toNat := by omega
    have hy := continuation?_ofNat (n := c.toNat / 4096 % 64) (by omega)
    have hz := continuation?_ofNat (n := c.toNat / 64 % 64) (by omega)
    have hw := continuation?_ofNat (n := c.toNat % 64) (by omega)
    simp only [h₁, h₂, h₃, if_false, List.cons_append, List.nil_append]
    rw [decodeChars?_four (by omega) hy hz hw, ha, hn, char?_toNat (by omega), Option.bind_some]

theorem decodeChars?_flatMap (cs : List Char) :
    decodeChars? (cs.flatMap encodeChar) = some cs := by
  induction cs with
  | nil => rfl
  | cons c cs ih =>
    rw [List.flatMap_cons, decodeChars?_encodeChar, ih]
    rfl

/-- Encoded text is read back. -/
theorem decode?_encode (s : String) : decode? (encode s) = some s := by
  rw [decode?, encode, decodeChars?_flatMap]
  simp

theorem encode_inj {s t : String} (h : encode s = encode t) : s = t := by
  have hd : decode? (encode s) = decode? (encode t) := congrArg decode? h
  rw [decode?_encode, decode?_encode] at hd
  exact Option.some_inj.mp hd

theorem encode_append (s t : String) : encode (s ++ t) = encode s ++ encode t := by
  rw [encode, String.toList_append, List.flatMap_append, encode, encode]

theorem encodeChar_one {c : Char} {a : UInt8} (hc : c.toNat = a.toNat) (ha : a.toNat < 0x80) :
    encodeChar c = [a] := by
  simp only [encodeChar, hc, ha, if_pos, UInt8.ofNat_toNat]

/-- Text of ASCII has one byte for each character. -/
theorem encode_ascii {cs : List Char} (h : ∀ c ∈ cs, c.toNat < 0x80) :
    encode (.ofList cs) = cs.map fun c => UInt8.ofNat c.toNat := by
  rw [encode, String.toList_ofList]
  induction cs with
  | nil => rfl
  | cons c cs ih =>
    have hc : c.toNat < 0x80 := h c List.mem_cons_self
    have hn : (UInt8.ofNat c.toNat).toNat = c.toNat := toNat_ofNat (Nat.lt_trans hc (by decide))
    rw [List.flatMap_cons, encodeChar_one hn.symm (by rw [hn]; exact hc),
      ih fun d hd => h d (List.mem_cons_of_mem c hd)]
    rfl

theorem encodeChar_two {c : Char} {a b : UInt8} {y : Nat} (ha : a.toNat / 32 = 6)
    (hb : continuation? b = some y) (hc : c.toNat = a.toNat % 32 * 64 + y)
    (hl : 0x80 ≤ c.toNat) : encodeChar c = [a, b] := by
  obtain ⟨hb, hy⟩ := continuation?_sound hb
  simp only [encodeChar, show ¬c.toNat < 0x80 by omega, show c.toNat < 0x800 by omega, if_pos,
    if_false, ofNat_eq (b := a) (n := 0xc0 + c.toNat / 64) (by omega),
    ofNat_eq (b := b) (n := 0x80 + c.toNat % 64) (by omega)]

theorem encodeChar_three {c : Char} {a b d : UInt8} {y z : Nat} (ha : a.toNat / 16 = 14)
    (hb : continuation? b = some y) (hd : continuation? d = some z)
    (hc : c.toNat = a.toNat % 16 * 4096 + y * 64 + z) (hl : 0x800 ≤ c.toNat) :
    encodeChar c = [a, b, d] := by
  obtain ⟨hb, hy⟩ := continuation?_sound hb
  obtain ⟨hd, hz⟩ := continuation?_sound hd
  simp only [encodeChar, show ¬c.toNat < 0x80 by omega, show ¬c.toNat < 0x800 by omega,
    show c.toNat < 0x10000 by omega, if_pos, if_false,
    ofNat_eq (b := a) (n := 0xe0 + c.toNat / 4096) (by omega),
    ofNat_eq (b := b) (n := 0x80 + c.toNat / 64 % 64) (by omega),
    ofNat_eq (b := d) (n := 0x80 + c.toNat % 64) (by omega)]

theorem encodeChar_four {c : Char} {a b d e : UInt8} {y z w : Nat} (ha : a.toNat / 8 = 30)
    (hb : continuation? b = some y) (hd : continuation? d = some z)
    (he : continuation? e = some w)
    (hc : c.toNat = a.toNat % 8 * 262144 + y * 4096 + z * 64 + w) (hl : 0x10000 ≤ c.toNat) :
    encodeChar c = [a, b, d, e] := by
  obtain ⟨hb, hy⟩ := continuation?_sound hb
  obtain ⟨hd, hz⟩ := continuation?_sound hd
  obtain ⟨he, hw⟩ := continuation?_sound he
  simp only [encodeChar, show ¬c.toNat < 0x80 by omega, show ¬c.toNat < 0x800 by omega,
    show ¬c.toNat < 0x10000 by omega, if_false,
    ofNat_eq (b := a) (n := 0xf0 + c.toNat / 262144) (by omega),
    ofNat_eq (b := b) (n := 0x80 + c.toNat / 4096 % 64) (by omega),
    ofNat_eq (b := d) (n := 0x80 + c.toNat / 64 % 64) (by omega),
    ofNat_eq (b := e) (n := 0x80 + c.toNat % 64) (by omega)]

/-- What decoding accepts was written by encoding. -/
theorem flatMap_of_decodeChars? {bytes : Bytes} {cs : List Char}
    (h : decodeChars? bytes = some cs) : bytes = cs.flatMap encodeChar := by
  fun_induction decodeChars? bytes generalizing cs with
  | case1 => cases h; rfl
  | case2 a rest ha ih =>
    simp only [Option.bind_eq_some_iff, Option.map_eq_some_iff] at h
    obtain ⟨c, hc, ds, hds, rfl⟩ := h
    rw [List.flatMap_cons, encodeChar_one (char?_sound hc).1 ha, ← ih hds]
    rfl
  | case3 a ha₁ ha b rest ih =>
    simp only [Option.bind_eq_some_iff, Option.map_eq_some_iff] at h
    obtain ⟨y, hy, c, hc, ds, hds, rfl⟩ := h
    obtain ⟨hc, hl⟩ := char?_sound hc
    rw [List.flatMap_cons, encodeChar_two ha hy hc (hc ▸ hl), ← ih hds]
    rfl
  | case5 a ha₁ ha₂ ha b d rest ih =>
    simp only [Option.bind_eq_some_iff, Option.map_eq_some_iff] at h
    obtain ⟨y, hy, z, hz, c, hc, ds, hds, rfl⟩ := h
    obtain ⟨hc, hl⟩ := char?_sound hc
    rw [List.flatMap_cons, encodeChar_three ha hy hz hc (hc ▸ hl), ← ih hds]
    rfl
  | case7 a ha₁ ha₂ ha₃ ha b d e rest ih =>
    simp only [Option.bind_eq_some_iff, Option.map_eq_some_iff] at h
    obtain ⟨y, hy, z, hz, w, hw, c, hc, ds, hds, rfl⟩ := h
    obtain ⟨hc, hl⟩ := char?_sound hc
    rw [List.flatMap_cons, encodeChar_four ha hy hz hw hc (hc ▸ hl), ← ih hds]
    rfl
  | _ => cases h

/-- Bytes that are read as a text are its encoding. -/
theorem encode_of_decode? {bytes : Bytes} {s : String} (h : decode? bytes = some s) :
    bytes = encode s := by
  obtain ⟨cs, hcs, rfl⟩ := Option.map_eq_some_iff.mp h
  rw [encode, String.toList_ofList]
  exact flatMap_of_decodeChars? hcs

end TrieFeed.Utf8
