import TrieFeed.Proofs.Codec.Hex
/-!
# What is read as hexadecimal text

Without the blanks around it and one mark in front, a text is read exactly if it consists of pairs
of digits, and the bytes are those that the pairs denote. Written, these bytes are the same digits in
lowercase, and all bytes that are written are read back.
-/
namespace TrieFeed.Hex

/-- The place of a digit of either case among the sixteen. -/
def IsDigit (c : Char) (n : Nat) : Prop :=
  "0123456789abcdef".toList[n]? = some c ∨ "0123456789ABCDEF".toList[n]? = some c

/-- Each pair of digits denotes one byte, the higher half first. -/
inductive Denotes : List Char → Bytes → Prop
  | nil : Denotes [] []
  | cons {high low : Char} {cs : List Char} {byte : UInt8} {bytes : Bytes} :
      IsDigit high (byte.toNat / 16) → IsDigit low (byte.toNat % 16) → Denotes cs bytes →
      Denotes (high :: low :: cs) (byte :: bytes)

/-- A text without one mark in front. -/
def unmarked : List Char → List Char
  | '0' :: 'x' :: cs => cs
  | '0' :: 'X' :: cs => cs
  | cs => cs

variable {cs : List Char} {bytes : Bytes}

/-! ## Digits -/

theorem digits_of_lt : ∀ n < 16, "0123456789abcdef".toList[n]? = some (digit n) ∧
    "0123456789ABCDEF".toList[n]? = some (digit n).toUpper := by decide

theorem toNat_toUpper_digit : ∀ n < 16,
    (digit n).toUpper.toNat = if n < 10 then 48 + n else 55 + n := by decide

theorem isDigit_iff {c : Char} {n : Nat} (hn : n < 16) : IsDigit c n ↔ c.toLower = digit n := by
  obtain ⟨hsmall, hcapital⟩ := digits_of_lt n hn
  rw [IsDigit, hsmall, hcapital, Option.some.injEq, Option.some.injEq]
  constructor
  · rintro (rfl | rfl)
    · exact lower_of_toNat hn (by rw [toNat_digit n hn]; split <;> omega)
    · exact lower_of_toNat hn (by rw [toNat_toUpper_digit n hn]; split <;> omega)
  · intro h
    have hc := toNat_of_lower hn h
    have hs := toNat_digit n hn
    have hu := toNat_toUpper_digit n hn
    rcases hc with ⟨hc, hlt⟩ | ⟨hc | hc, hle⟩
    · left
      apply Char.toNat_inj.mp
      rw [hs, hc, if_pos hlt]
    · left
      apply Char.toNat_inj.mp
      rw [hs, hc, if_neg (by omega)]
    · right
      apply Char.toNat_inj.mp
      rw [hu, hc, if_neg (by omega)]

/-! ## Texts -/

theorem denotes_iff_writes : Denotes cs bytes ↔ Writes cs bytes := by
  constructor
  · intro h
    induction h with
    | nil => rfl
    | @cons high low cs byte bytes hh hl _ ih =>
      have hb := byte.toNat_lt
      rw [isDigit_iff (by omega)] at hh hl
      simp only [Writes, List.map_cons, List.flatMap_cons, byteDigits, hh, hl] at ih ⊢
      rw [ih]
      rfl
  · intro h
    induction bytes generalizing cs with
    | nil =>
      rw [h.nil]
      exact .nil
    | cons byte bytes ih =>
      obtain ⟨high, low, rest, rfl, hh, hl, hrest⟩ := h.uncons
      have hb := byte.toNat_lt
      exact .cons ((isDigit_iff (by omega)).mpr hh) ((isDigit_iff (by omega)).mpr hl) (ih hrest)

theorem exists_mark_chars (cs : List Char) :
    ∃ mark, IsMark mark ∧ cs = mark.toList ++ unmarked cs := by
  fun_cases unmarked cs with
  | case1 rest => exact ⟨"0x", .inr (.inl rfl), rfl⟩
  | case2 rest => exact ⟨"0X", .inr (.inr rfl), rfl⟩
  | case3 => exact ⟨"", .inl rfl, rfl⟩

/-- Digits are not taken for a mark, so that one mark is all that is dropped in front of them. -/
theorem unmarked_append {mark : String} (hm : IsMark mark) (h : Writes cs bytes) :
    unmarked (mark.toList ++ cs) = cs := by
  rcases hm with rfl | rfl | rfl
  · change unmarked cs = cs
    cases bytes with
    | nil =>
      rw [h.nil]
      rfl
    | cons byte bytes =>
      obtain ⟨high, low, rest, rfl, -, hl, -⟩ := h.uncons
      have hrange := toNat_of_lower (Nat.mod_lt _ (by decide)) hl
      unfold unmarked
      split
      · rename_i he
        obtain rfl : low = 'x' := (List.cons.inj (List.cons.inj he).2).1
        have : 'x'.toNat = 120 := rfl
        omega
      · rename_i he
        obtain rfl : low = 'X' := (List.cons.inj (List.cons.inj he).2).1
        have : 'X'.toNat = 88 := rfl
        omega
      · rfl
  · rfl
  · rfl

/-- What is left of a text between its blanks and behind its mark. -/
def core (s : String) : List Char := unmarked (Text.trim s.toList)

theorem decode_eq_ok_iff {s : String} : decode s = .ok bytes ↔ Denotes (core s) bytes := by
  rw [denotes_iff_writes]
  constructor
  · intro h
    obtain ⟨mark, t, hm, hw, hs⟩ := exists_writes_of_decode h
    have htrim : Text.trim s.toList = mark.toList ++ t.toList := by
      simpa [Text.trimmed] using congrArg String.toList hs
    rw [core, htrim, unmarked_append hm hw]
    exact hw
  · intro h
    obtain ⟨mark, hm, hmark⟩ := exists_mark_chars (Text.trim s.toList)
    apply decode_of_trimmed (t := .ofList (core s)) hm
    · rwa [String.toList_ofList]
    · rw [Text.trimmed, hmark, String.ofList_append, String.ofList_toList]
      rfl

theorem encode_of_denotes (h : Denotes cs bytes) :
    encode bytes = Text.asciiLower (.ofList cs) := by
  have hw : cs.map Char.toLower = bytes.flatMap byteDigits := denotes_iff_writes.mp h
  rw [Text.asciiLower, String.toList_ofList, hw]
  rfl

theorem decode_encode (bytes : Bytes) : decode (encode bytes) = .ok bytes := by
  have hlower : ∀ n < 16, (digit n).toLower = digit n := by decide
  have hw : Writes (encode bytes).toList bytes := by
    rw [Writes, encode, String.toList_ofList]
    induction bytes with
    | nil => rfl
    | cons byte bytes ih =>
      have hb := byte.toNat_lt
      have hhigh := hlower (byte.toNat / 16) (by omega)
      have hlow := hlower (byte.toNat % 16) (by omega)
      simp [byteDigits, hhigh, hlow, ih]
  have hmark : IsMark "" := .inl rfl
  apply decode_of_trimmed hmark hw
  have htrim := trimmed_self hmark hw
  rwa [String.empty_append] at htrim ⊢

theorem digits_eq_nil_iff {s : String} (h : decode s = .ok bytes) :
    digits s = [] ↔ bytes = [] := by
  obtain ⟨mark, t, hm, hw, hs⟩ := exists_writes_of_decode h
  have hlength : (digits s).length = 2 * bytes.length := by
    rw [digits_of_trimmed hm hw hs, List.length_map, hw.length]
  rw [← List.length_eq_zero_iff, ← List.length_eq_zero_iff]
  omega

theorem isValid_iff {s : String} : isValid s ↔ ∃ bytes, bytes ≠ [] ∧ decode s = .ok bytes := by
  rw [isValid]
  cases h : decode s with
  | error fault => simp [Except.isOk, Except.toBool]
  | ok bytes => simp [Except.isOk, Except.toBool, digits_eq_nil_iff h]

/-- A text is read as bytes exactly if what is left of it between blanks and behind one mark are
digits that denote these bytes, and written they are these digits in lowercase. All bytes that are
written are read back. The texts called valid are those that are read as at least one byte. -/
theorem digits_read_exactly (s : String) (bytes : Bytes) :
    (decode s = .ok bytes ↔ Denotes (core s) bytes) ∧
    (decode s = .ok bytes → encode bytes = Text.asciiLower (.ofList (core s))) ∧
    decode (encode bytes) = .ok bytes ∧
    (isValid s ↔ ∃ read, read ≠ [] ∧ decode s = .ok read) :=
  ⟨decode_eq_ok_iff, fun h => encode_of_denotes (decode_eq_ok_iff.mp h), decode_encode bytes,
    isValid_iff⟩

/-- Capitals, a mark and blanks: the blank behind the first mark is no digit, nor is a second
mark. -/
theorem digits_read_exactly_marked :
    decode "\t0XDEADbeef " = .ok [0xde, 0xad, 0xbe, 0xef] ∧
    encode [0xde, 0xad, 0xbe, 0xef] = "deadbeef" ∧ isValid "\t0XDEADbeef " ∧
    ¬ Denotes (core "0x0x12") [0x12] ∧ ¬ Denotes (core "0x 12") [0x12] := by
  have hread : decode "\t0XDEADbeef " = .ok [0xde, 0xad, 0xbe, 0xef] := by decide
  obtain ⟨-, hlower, -, hvalid⟩ :=
    digits_read_exactly "\t0XDEADbeef " [0xde, 0xad, 0xbe, 0xef]
  refine ⟨hread, ?_, hvalid.mpr ⟨_, by simp, hread⟩, ?_, ?_⟩
  · rw [hlower hread]
    decide
  · rw [← (digits_read_exactly _ _).1]
    decide
  · rw [← (digits_read_exactly _ _).1]
    decide

end TrieFeed.Hex
