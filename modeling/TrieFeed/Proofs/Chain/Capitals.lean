import Mathlib.Data.List.Basic
import TrieFeed.Proofs.Chain.Address
/-!
# Identifiers in capitals

A bech32 text in capitals is read like the text itself, but its label comes out in capitals, too,
and no reader of addresses or pools takes such a label. Hexadecimal identifiers are read in
capitals.
-/
namespace TrieFeed.Bech32

open Text (Visible)

/-! ## Reading bech32 -/

section

variable {s label : String} {bytes : Bytes}

theorem decode_eq_ok : decode s = .ok (label, bytes) ↔
    ∃ data digits, cutLast? (Text.trim s.toList) = some (label.toList, data) ∧
      data.mapM digitValue? = some digits ∧ mixesCase (Text.trim s.toList) = false ∧
      labelFault? label.toList = none ∧
      hasChecksum (Text.trim s.toList).length label.toList digits ∧
      ofDigits (digits.take (digits.length - 6)) = bytes := by
  unfold decode
  dsimp only
  rw [Text.trimmed, String.toList_ofList]
  cases hcut : cutLast? (Text.trim s.toList) with
  | none =>
    constructor
    · intro h
      cases h
    · rintro ⟨_, _, h, -⟩
      cases h
  | some parts =>
    obtain ⟨before, data⟩ := parts
    dsimp only
    cases hdigits : data.mapM digitValue? with
    | none =>
      constructor
      · intro h
        cases h
      · rintro ⟨_, _, hc, hd, -⟩
        cases hc
        cases hdigits.symm.trans hd
    | some digits =>
      dsimp only
      constructor
      · intro h
        split at h
        · cases h
        · rename_i hfault
          rw [not_or, Bool.not_eq_true, Option.not_isSome_iff_eq_none] at hfault
          split at h
          · rename_i hsum
            cases h
            rw [String.toList_ofList]
            exact ⟨data, digits, rfl, hdigits, hfault.1, hfault.2, hsum, rfl⟩
          · cases h
      · rintro ⟨_, _, hc, hd, hcase, hlabel, hsum, rfl⟩
        cases hc
        cases hdigits.symm.trans hd
        rw [hcase, hlabel, if_neg (by decide), if_pos hsum, String.ofList_toList]

theorem decode_trimmed (s : String) : decode (Text.trimmed s) = decode s := by
  rw [decode, Text.trimmed_trimmed, decode]

theorem cutAt?_eq_some {sep : Char} {cs before rest : List Char}
    (h : Text.cutAt? sep cs = some (before, rest)) : cs = before ++ sep :: rest := by
  induction cs generalizing before with
  | nil => cases h
  | cons c cs ih =>
    rw [Text.cutAt?] at h
    split at h
    · rename_i hc
      cases h
      rw [hc, List.nil_append]
    · obtain ⟨⟨head, tail⟩, hcut, he⟩ := Option.map_eq_some_iff.mp h
      cases he
      rw [ih hcut, List.cons_append]

theorem cutLast?_eq_some {cs before data : List Char} (h : cutLast? cs = some (before, data)) :
    cs = before ++ separator :: data := by
  obtain ⟨⟨after, lead⟩, hcut, he⟩ := Option.map_eq_some_iff.mp h
  cases he
  have hr := congrArg List.reverse (cutAt?_eq_some hcut)
  rwa [List.reverse_reverse, List.reverse_append, List.reverse_cons, List.append_assoc,
    List.singleton_append] at hr

/-- The digits are characters of either case of the alphabet. -/
theorem visible_of_digitValue? {c : Char} {n : Nat} (h : digitValue? c = some n) : Visible c := by
  have hm : c.toLower ∈ alphabet := by
    rw [digitValue?] at h
    exact List.isSome_idxOf?.mp (h ▸ rfl)
  obtain ⟨i, hi, hd⟩ := List.mem_iff_getElem.mp hm
  have hl := visible_digitChar i hi
  rw [digitChar, List.getD_eq_getElem _ _ hi, hd, Visible, Text.toNat_toLower] at hl
  unfold Visible
  split at hl
  · rename_i hu
    rw [Text.isUpper_iff] at hu
    omega
  · exact hl

/-! ## Letter case -/

theorem cutAt?_map {sep : Char} {f : Char → Char} (hf : ∀ c, f c = sep ↔ c = sep) (cs : List Char) :
    Text.cutAt? sep (cs.map f) = (Text.cutAt? sep cs).map (Prod.map (List.map f) (List.map f)) := by
  induction cs with
  | nil => rfl
  | cons c cs ih =>
    rw [List.map_cons, Text.cutAt?, Text.cutAt?]
    by_cases hc : c = sep
    · rw [if_pos hc, if_pos ((hf c).mpr hc)]
      rfl
    · rw [if_neg hc, if_neg ((hf c).not.mpr hc), ih, Option.map_map, Option.map_map]
      rfl

theorem toUpper_eq_separator (c : Char) : c.toUpper = separator ↔ c = separator := by
  have hs : separator.toNat = 49 := rfl
  rw [← Char.toNat_inj, ← Char.toNat_inj, Text.toNat_toUpper, hs]
  split
  · rename_i h
    rw [Text.isLower_iff] at h
    omega
  · exact Iff.rfl

theorem cutLast?_upper {cs before data : List Char} (h : cutLast? cs = some (before, data)) :
    cutLast? (cs.map Char.toUpper) = some (before.map Char.toUpper, data.map Char.toUpper) := by
  obtain ⟨⟨after, lead⟩, hcut, he⟩ := Option.map_eq_some_iff.mp h
  cases he
  rw [cutLast?, ← List.map_reverse, cutAt?_map toUpper_eq_separator, hcut, Option.map_some,
    Option.map_some, Prod.map]
  dsimp only
  rw [List.map_reverse, List.map_reverse]

theorem mapM_digitValue?_upper (data : List Char) :
    (data.map Char.toUpper).mapM digitValue? = data.mapM digitValue? := by
  have hf : digitValue? ∘ Char.toUpper = digitValue? :=
    funext fun c => congrArg alphabet.idxOf? (Text.toLower_toUpper c)
  rw [List.mapM_map, hf]

theorem mixesCase_upper (cs : List Char) : mixesCase (cs.map Char.toUpper) = false := by
  have hnone : (cs.map Char.toUpper).any Char.isLower = false :=
    List.any_eq_false.mpr (List.forall_mem_map.mpr fun c _ =>
      Bool.eq_false_iff.mp (Text.isLower_toUpper c))
  rw [mixesCase, hnone, Bool.false_and]

/-- The label in capitals is a label, too. -/
theorem labelFault?_upper {label : List Char} (h : labelFault? label = none) :
    labelFault? (label.map Char.toUpper) = none := by
  obtain ⟨hempty, hlong, hvisible, -⟩ := labelFault?_eq_none.mp h
  refine labelFault?_eq_none.mpr ⟨?_, ?_, ?_, mixesCase_upper label⟩
  · rwa [Ne, List.map_eq_nil_iff]
  · rwa [List.length_map]
  · exact List.forall_mem_map.mpr fun c hc => (hvisible c hc).toUpper

/-- The checksum is the same for a label in capitals. -/
theorem expand_upper (label : List Char) : expand (label.map Char.toUpper) = expand label := by
  have h : (label.map Char.toUpper).map (fun c => c.toLower.toNat) =
      label.map fun c => c.toLower.toNat := by
    rw [List.map_map]
    exact List.map_congr_left fun c _ => congrArg Char.toNat (Text.toLower_toUpper c)
  rw [expand, h, expand]

/-- A text in capitals is read with the same bytes, and its label in capitals. -/
theorem decode_asciiUpper (h : decode s = .ok (label, bytes)) :
    decode (Text.asciiUpper s) = .ok (Text.asciiUpper label, bytes) := by
  obtain ⟨data, digits, hcut, hdigits, -, hlabel, hsum, hbytes⟩ := decode_eq_ok.mp h
  have htrim : Text.trim (Text.asciiUpper s).toList = (Text.trim s.toList).map Char.toUpper := by
    rw [Text.asciiUpper, String.toList_ofList, Text.trim_map Text.isBlank_toUpper]
  have hchars : (Text.asciiUpper label).toList = label.toList.map Char.toUpper :=
    String.toList_ofList
  refine decode_eq_ok.mpr ⟨data.map Char.toUpper, digits, ?_, ?_, ?_, ?_, ?_, hbytes⟩
  · rw [htrim, hchars]
    exact cutLast?_upper hcut
  · rw [mapM_digitValue?_upper, hdigits]
  · rw [htrim, mixesCase_upper]
  · rw [hchars]
    exact labelFault?_upper hlabel
  · rw [htrim, hchars, hasChecksum, expand_upper, List.length_map]
    exact hsum

/-- What is read has no characters but visible ones between blanks. -/
theorem visible_of_decode (h : decode s = .ok (label, bytes)) :
    ∀ c ∈ Text.trim s.toList, Visible c := by
  obtain ⟨data, digits, hcut, hdigits, -, hlabel, -, -⟩ := decode_eq_ok.mp h
  obtain ⟨-, -, hvisible, -⟩ := labelFault?_eq_none.mp hlabel
  have hdata : ∀ c ∈ data, Visible c := by
    intro c hc
    have hm : digitValue? c ∈ digits.map some :=
      Outcome.mapM_eq_some.mp hdigits ▸ List.mem_map_of_mem hc
    obtain ⟨n, -, hn⟩ := List.mem_map.mp hm
    exact visible_of_digitValue? hn.symm
  rw [cutLast?_eq_some hcut]
  refine List.forall_mem_append.mpr ⟨hvisible, List.forall_mem_cons.mpr ⟨?_, hdata⟩⟩
  exact ⟨by decide, by decide⟩

/-- A text whose label has a small letter has no capital. -/
theorem asciiLower_of_decode (h : decode s = .ok (label, bytes))
    (hl : label.toList.any Char.isLower) : Text.asciiLower s = s := by
  obtain ⟨data, digits, hcut, -, hcase, -⟩ := decode_eq_ok.mp h
  have hlower : (Text.trim s.toList).any Char.isLower := by
    rw [cutLast?_eq_some hcut, List.any_append, hl, Bool.true_or]
  rw [mixesCase, hlower, Bool.true_and] at hcase
  exact Text.asciiLower_eq_self fun c hc => Bool.eq_false_iff.mpr (List.any_eq_false.mp hcase c hc)

end

end TrieFeed.Bech32

namespace TrieFeed.Hex

open Text (Visible)

theorem decode_trimmed (s : String) : decode (Text.trimmed s) = decode s := by
  rw [decode, digits, Text.trimmed_trimmed, decode, digits]

theorem visible_of_decode {s : String} {bytes : Bytes} (h : decode s = .ok bytes) :
    ∀ c ∈ Text.trim s.toList, Visible c := by
  obtain ⟨mark, t, hm, hw, hs⟩ := exists_writes_of_decode h
  have hchars : Text.trim s.toList = mark.toList ++ t.toList := by
    rw [← String.toList_append, ← hs]
    exact String.toList_ofList.symm
  rw [hchars]
  exact visible_of_mark hm hw

/-- A text that begins with the letter P is refused for its length or for that letter. -/
theorem decode_capital {s : String} {rest : List Char} (h : Text.trim s.toList = 'P' :: rest) :
    decode s = .error .oddLength ∨ decode s = .error (.notDigit 80 0) := by
  obtain ⟨tail, htail⟩ : ∃ tail, digits s = 80 :: tail := by
    refine ⟨rest.flatMap Utf8.encodeChar, ?_⟩
    rw [digits, Text.trimmed, h, Utf8.encode, String.toList_ofList]
    rfl
  unfold decode
  dsimp only
  rw [htail]
  split
  · exact .inl rfl
  · rename_i hodd
    cases tail with
    | nil => exact absurd rfl hodd
    | cons low tail => exact .inr rfl

end TrieFeed.Hex

namespace TrieFeed.Address

open Text (Visible)

section

variable {s : String} {bytes hash : Bytes}

/-! ## Addresses in capitals -/

theorem Kind.Suits.any_isLower {kind : Kind} {label : String} (h : kind.Suits label) :
    label.toList.any Char.isLower := by
  rcases h with rfl | rfl <;> cases kind <;> decide

theorem Kind.Suits.not_upper {kind : Kind} {label : String} (h : kind.Suits label) (other : Kind) :
    ¬other.Suits (Text.asciiUpper label) := by
  unfold Kind.Suits
  rcases h with rfl | rfl <;> cases kind <;> cases other <;> decide

/-- An address in capitals is refused for its label. -/
theorem read_asciiUpper {kind : Kind} (h : read s = .ok (kind, bytes)) :
    ∃ label, kind.Suits label ∧ Bech32.decode s = .ok (label, bytes) ∧ classify bytes = .ok kind ∧
      read (Text.asciiUpper s) =
        .error (Fault.wrongLabel (Text.asciiUpper label) kind).toError := by
  obtain ⟨label, hd, hc, hl⟩ := read_eq_ok.mp h
  refine ⟨label, hl, hd, hc, ?_⟩
  rw [read, Bech32.decode_asciiUpper hd]
  dsimp only
  rw [hc]
  exact if_neg (hl.not_upper kind)

/-- The readers of addresses. -/
def readers : List (String → Except CodecError Bytes) :=
  [toBytes, delegationCredential, paymentCredential]

/-- They read an address first and fail as that does. -/
theorem readers_read {reader : String → Except CodecError Bytes} (hr : reader ∈ readers) :
    (∀ s b, reader s = .ok b → ∃ kind bytes, read s = .ok (kind, bytes)) ∧
      ∀ s e, read s = .error e → reader s = .error e := by
  suffices h : ∀ s e, read s = .error e → reader s = .error e by
    refine ⟨fun s b hb => ?_, h⟩
    cases hs : read s with
    | error e => cases (h s e hs).symm.trans hb
    | ok found => exact ⟨found.1, found.2, rfl⟩
  intro s e h
  simp only [readers, List.mem_cons, List.not_mem_nil, or_false] at hr
  rcases hr with rfl | rfl | rfl
  · rw [toBytes, h]
    rfl
  · rw [delegationCredential, h]
  · rw [paymentCredential, h]

/-! ## Pools in capitals -/

theorem poolKeyHash_eq_ok :
    poolKeyHash s = .ok hash ↔ poolBytes s = .ok hash ∧ hash.length = credentialSize := by
  unfold poolKeyHash
  cases poolBytes s with
  | error e => exact iff_of_false nofun fun h => nomatch h.1
  | ok bytes =>
    dsimp only
    split
    · rename_i hsize
      refine ⟨fun h => ?_, fun h => h.1⟩
      cases h
      exact ⟨rfl, hsize⟩
    · rename_i hsize
      refine iff_of_false nofun fun h => hsize ?_
      cases h.1
      exact h.2

/-- Whether a text begins with the label of pools. -/
def IsPoolText (s : String) : Prop := "pool".toList <+: (Text.trimmed s).toList

instance (s : String) : Decidable (IsPoolText s) :=
  inferInstanceAs (Decidable ("pool".toList <+: (Text.trimmed s).toList))

theorem poolBytes_of_text (h : IsPoolText s) : poolBytes s =
    match Bech32.decode s with
    | .error fault => .error fault.toError
    | .ok (label, bytes) =>
      if label = "pool" then .ok bytes else .error (Fault.wrongPoolLabel label).toError := by
  have hp := Text.isSome_after?.mpr h
  have htrim : Bech32.decode (Text.trimmed s) = Bech32.decode s := Bech32.decode_trimmed s
  unfold poolBytes
  cases hd : Bech32.decode s with
  | error fault => simp only [if_pos hp, htrim, hd]
  | ok found => simp only [if_pos hp, htrim, hd]

theorem poolBytes_of_not_text (h : ¬IsPoolText s) :
    poolBytes s = (Hex.decode s).mapError Hex.Fault.toError := by
  unfold poolBytes
  dsimp only
  rw [if_neg (mt Text.isSome_after?.mp h), Hex.decode_trimmed]

/-- No text in capitals begins with the label of pools. -/
theorem not_isPoolText_asciiUpper (s : String) : ¬IsPoolText (Text.asciiUpper s) := by
  intro h
  have hchars : (Text.trimmed (Text.asciiUpper s)).toList =
      (Text.trimmed s).toList.map Char.toUpper := by
    rw [Text.trimmed_asciiUpper]
    exact String.toList_ofList
  have hp : 'p' ∈ (Text.trimmed (Text.asciiUpper s)).toList := h.subset (by decide)
  rw [hchars] at hp
  obtain ⟨c, -, hc⟩ := List.mem_map.mp hp
  have hl := Text.isLower_toUpper c
  rw [hc] at hl
  exact absurd hl (by decide)

theorem poolKeyHash_asciiUpper_of_text (h : IsPoolText s) :
    poolKeyHash (Text.asciiUpper s) = .error (Hex.Fault.oddLength).toError ∨
      poolKeyHash (Text.asciiUpper s) = .error (Hex.Fault.notDigit 80 0).toError := by
  obtain ⟨rest, hrest⟩ := h
  have hcore : Text.trim s.toList = "pool".toList ++ rest :=
    String.toList_ofList.symm.trans hrest.symm
  have htrim : Text.trim (Text.asciiUpper s).toList =
      'P' :: ("OOL".toList ++ rest.map Char.toUpper) := by
    rw [Text.asciiUpper, String.toList_ofList, Text.trim_map Text.isBlank_toUpper, hcore,
      List.map_append]
    rfl
  unfold poolKeyHash
  rw [poolBytes_of_not_text (not_isPoolText_asciiUpper s)]
  rcases Hex.decode_capital htrim with hd | hd
  · rw [hd]
    exact .inl rfl
  · rw [hd]
    exact .inr rfl

theorem poolKeyHash_of_text (h : IsPoolText s) (hs : poolKeyHash s = .ok hash) :
    Bech32.decode s = .ok ("pool", hash) := by
  have hb := (poolKeyHash_eq_ok.mp hs).1
  rw [poolBytes_of_text h] at hb
  split at hb
  · cases hb
  · rename_i label bytes hd
    split at hb
    · rename_i hl
      cases hb
      rw [hd, hl]
    · cases hb

/-- The digits of a key hash are read in capitals. -/
theorem poolKeyHash_asciiUpper_of_digits (h : ¬IsPoolText s) (hs : poolKeyHash s = .ok hash) :
    Hex.decode s = .ok hash ∧ poolKeyHash (Text.asciiUpper s) = .ok hash := by
  obtain ⟨hb, hsize⟩ := poolKeyHash_eq_ok.mp hs
  rw [poolBytes_of_not_text h, Outcome.mapError_eq_ok] at hb
  refine ⟨hb, poolKeyHash_eq_ok.mpr ⟨?_, hsize⟩⟩
  rw [poolBytes_of_not_text (not_isPoolText_asciiUpper s), Outcome.mapError_eq_ok]
  exact Hex.decode_asciiUpper hb

end

/-- The text of an address in capitals stands for the same bytes, and no reader of addresses takes
it: each compares the label as written with one in lowercase. So an address is read in lowercase
alone. A pool is read in capitals if it is given by the digits of its key hash, and not if it is
given by its bech32 text, which stands for the same bytes there, too, but is then taken for
digits. -/
theorem capitals_refused (s : String) :
    (∀ reader ∈ [toBytes, delegationCredential, paymentCredential], ∀ b, reader s = .ok b →
      (∀ c ∈ Text.trim s.toList, Visible c) ∧ Text.asciiLower s = s ∧ ∃ label kind bytes,
        Bech32.decode s = .ok (label, bytes) ∧ classify bytes = .ok kind ∧
        Bech32.decode (Text.asciiUpper s) = .ok (Text.asciiUpper label, bytes) ∧
        reader (Text.asciiUpper s) =
          .error (Fault.wrongLabel (Text.asciiUpper label) kind).toError) ∧
    ∀ hash, poolKeyHash s = .ok hash →
      (∀ c ∈ Text.trim s.toList, Visible c) ∧
      (poolKeyHash (Text.asciiUpper s) = .ok hash ↔ ¬IsPoolText s) ∧
      (¬IsPoolText s → Hex.decode s = .ok hash) ∧
      (IsPoolText s → Text.asciiLower s = s ∧ Bech32.decode s = .ok ("pool", hash) ∧
        Bech32.decode (Text.asciiUpper s) = .ok ("POOL", hash) ∧
        (poolKeyHash (Text.asciiUpper s) = .error (Hex.Fault.oddLength).toError ∨
          poolKeyHash (Text.asciiUpper s) = .error (Hex.Fault.notDigit 80 0).toError)) := by
  refine ⟨fun reader hr b hb => ?_, fun hash hs => ⟨?_, ⟨fun hu hp => ?_, ?_⟩, ?_, fun hp => ?_⟩⟩
  · obtain ⟨hread, herror⟩ := readers_read hr
    obtain ⟨kind, bytes, hs⟩ := hread s b hb
    obtain ⟨label, hl, hd, hc, hu⟩ := read_asciiUpper hs
    exact ⟨Bech32.visible_of_decode hd, Bech32.asciiLower_of_decode hd hl.any_isLower, label, kind,
      bytes, hd, hc, Bech32.decode_asciiUpper hd, herror _ _ hu⟩
  · by_cases hp : IsPoolText s
    · exact Bech32.visible_of_decode (poolKeyHash_of_text hp hs)
    · exact Hex.visible_of_decode (poolKeyHash_asciiUpper_of_digits hp hs).1
  · rcases poolKeyHash_asciiUpper_of_text hp with h | h
    · exact nomatch h.symm.trans hu
    · exact nomatch h.symm.trans hu
  · exact fun hp => (poolKeyHash_asciiUpper_of_digits hp hs).2
  · exact fun hp => (poolKeyHash_asciiUpper_of_digits hp hs).1
  · have hd := poolKeyHash_of_text hp hs
    have hu : Text.asciiUpper "pool" = "POOL" := by decide
    exact ⟨Bech32.asciiLower_of_decode hd (by decide), hd, hu ▸ Bech32.decode_asciiUpper hd,
      poolKeyHash_asciiUpper_of_text hp⟩

/-- A stake address of the test network. -/
def stakeText : String := "stake_test1uz42424242424242424242424242424242424242424242s7f0kdw"

/-- The identifier of a pool. -/
def poolText : String := "pool1424242424242424242424242424242424242424242425m6wpt0"

theorem capitals_refused_stake :
    delegationCredential stakeText = .ok (List.replicate 28 0xaa) ∧
    delegationCredential "STAKE_TEST1UZ42424242424242424242424242424242424242424242S7F0KDW" =
      .error (Fault.wrongLabel "STAKE_TEST" .reward).toError ∧
    poolKeyHash poolText = .ok (List.replicate 28 0xaa) ∧
    poolKeyHash "POOL1424242424242424242424242424242424242424242425M6WPT0" ≠
      .ok (List.replicate 28 0xaa) ∧
    poolKeyHash (.ofList (List.replicate 56 'A')) = .ok (List.replicate 28 0xaa) := by
  have hstake : delegationCredential stakeText = .ok (List.replicate 28 0xaa) := by decide +kernel
  have htext : poolKeyHash poolText = .ok (List.replicate 28 0xaa) := by decide +kernel
  have hdigits : poolKeyHash (.ofList (List.replicate 56 'a')) = .ok (List.replicate 28 0xaa) := by
    decide +kernel
  refine ⟨hstake, ?_, htext, ?_, ?_⟩
  · obtain ⟨-, -, label, kind, bytes, hd, hc, -, hrefused⟩ :=
      (capitals_refused stakeText).1 delegationCredential (by simp) _ hstake
    have hread : Bech32.decode stakeText = .ok ("stake_test", 0xe0 :: List.replicate 28 0xaa) := by
      decide +kernel
    cases hread.symm.trans hd
    cases hc
    exact hrefused
  · have hlabel : IsPoolText poolText := by decide +kernel
    obtain ⟨-, hread, -⟩ := (capitals_refused poolText).2 _ htext
    exact mt hread.mp (not_not_intro hlabel)
  · have hlabel : ¬IsPoolText (.ofList (List.replicate 56 'a')) := by decide +kernel
    obtain ⟨-, hread, -⟩ := (capitals_refused _).2 _ hdigits
    exact hread.mpr hlabel

end TrieFeed.Address
