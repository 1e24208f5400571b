import TrieFeed.Capability.Codecs
import TrieFeed.Proofs.Chain.Regroup
import TrieFeed.Proofs.Chain.Residue
import TrieFeed.Proofs.Outcome
import TrieFeed.Proofs.Text.Blank
import TrieFeed.Proofs.Text.Utf8
/-!
# Bech32 text is read back

What is written has its label in lowercase, no digit that could be taken for the separator and a
checksum that fits. So reading finds the label and the bytes again, also between blanks.
-/
namespace TrieFeed.Bech32

open Text (Visible)

/-! ## Digits as characters -/

theorem digitValue?_digitChar : ∀ n < 32, digitValue? (digitChar n) = some n := by decide

theorem digitChar_ne_separator : ∀ n < 32, digitChar n ≠ separator := by decide

theorem visible_digitChar : ∀ n < 32, Visible (digitChar n) := by
  unfold Visible
  decide

theorem isUpper_digitChar : ∀ n < 32, (digitChar n).isUpper = false := by decide

theorem mapM_digitValue? {ds : List Nat} (h : ∀ d ∈ ds, d < 32) :
    (ds.map digitChar).mapM digitValue? = some ds := by
  induction ds with
  | nil => rfl
  | cons d ds ih =>
    rw [List.map_cons, List.mapM_cons, digitValue?_digitChar d (h d List.mem_cons_self),
      ih fun e he => h e (List.mem_cons_of_mem d he)]
    rfl

/-! ## Labels -/

theorem checkChars_eq_none {cs : List Char} {hasLower hasUpper : Bool}
    (h : (hasLower && hasUpper) = false) : checkChars cs hasLower hasUpper = none ↔
      (∀ c ∈ cs, Visible c) ∧
        ((hasLower || cs.any Char.isLower) && (hasUpper || cs.any Char.isUpper)) = false := by
  induction cs generalizing hasLower hasUpper with
  | nil => simp [checkChars, h]
  | cons c cs ih =>
    rw [List.forall_mem_cons, List.any_cons, List.any_cons, checkChars]
    by_cases hv : Visible c
    -- A letter is tested against letters of the other case before it, or counts for those after it.
    · obtain ⟨hlow, hhigh⟩ := id hv
      rw [if_neg (by omega), if_neg (by omega)]
      cases hl : c.isLower with
      | true =>
        have hu : c.isUpper = false := by
          rw [Bool.eq_false_iff, Ne, Text.isUpper_iff]
          have := Text.isLower_iff.mp hl
          omega
        cases hasUpper with
        | true => simp
        | false => simp [hv, hu, ih]
      | false =>
        cases hu : c.isUpper with
        | true =>
          cases hasLower with
          | true => simp
          | false => simp [hv, ih]
        | false => simp [hv, ih h]
    · refine iff_of_false ?_ fun hr => hv hr.1.1
      unfold Visible at hv
      split
      · nofun
      · rw [if_pos (by omega)]
        nofun

/-- A label can stand before the separator if it is neither empty nor too long, and its characters
are visible and not of both cases. -/
theorem labelFault?_eq_none {label : List Char} : labelFault? label = none ↔
    label ≠ [] ∧ label.length ≤ maxLabel ∧ (∀ c ∈ label, Visible c) ∧ mixesCase label = false := by
  have hsize (hv : ∀ c ∈ label, Visible c) : Utf8.size (.ofList label) = label.length := by
    have hascii : ∀ c ∈ label, c.toNat < 0x80 := fun c hc =>
      Nat.lt_of_le_of_lt (hv c hc).2 (by decide)
    rw [Utf8.size, Utf8.encode_ascii hascii, List.length_map]
  have hchars : checkChars label false false = none ↔
      (∀ c ∈ label, Visible c) ∧ mixesCase label = false := checkChars_eq_none rfl
  unfold labelFault?
  dsimp only
  by_cases hempty : label = []
  · rw [if_pos (by rw [hempty]; rfl)]
    exact iff_of_false (Option.some_ne_none _) fun h => h.1 hempty
  rw [if_neg (by rwa [List.isEmpty_iff])]
  by_cases hv : ∀ c ∈ label, Visible c
  · rw [hsize hv]
    by_cases hlong : maxLabel < label.length
    · rw [if_pos hlong]
      exact iff_of_false (Option.some_ne_none _) fun h => Nat.not_le.mpr hlong h.2.1
    · rw [if_neg hlong, hchars]
      exact ⟨fun h => ⟨hempty, Nat.not_lt.mp hlong, h⟩, fun h => h.2.2⟩
  · refine iff_of_false (fun h => ?_) fun h => hv h.2.2.1
    split at h
    · cases h
    · exact hv (hchars.mp h).1

theorem mixesCase_of_not_isUpper {cs : List Char} (h : ∀ c ∈ cs, c.isUpper = false) :
    mixesCase cs = false := by
  have hnone : cs.any Char.isUpper = false :=
    List.any_eq_false.mpr fun c hc => Bool.eq_false_iff.mp (h c hc)
  rw [mixesCase, hnone, Bool.and_false]

/-- The label in lowercase is a label, too. -/
theorem labelFault?_lower {label : List Char} (h : labelFault? label = none) :
    labelFault? (label.map Char.toLower) = none := by
  obtain ⟨hempty, hlong, hvisible, -⟩ := labelFault?_eq_none.mp h
  refine labelFault?_eq_none.mpr ⟨?_, ?_, ?_, ?_⟩
  · rwa [Ne, List.map_eq_nil_iff]
  · rwa [List.length_map]
  · exact List.forall_mem_map.mpr fun c hc => (hvisible c hc).toLower
  · exact mixesCase_of_not_isUpper (List.forall_mem_map.mpr fun c _ => Text.isUpper_toLower c)

/-- The checksum is the same for a label in lowercase. -/
theorem expand_lower (label : List Char) : expand (label.map Char.toLower) = expand label := by
  have h : (label.map Char.toLower).map (fun c => c.toLower.toNat) =
      label.map fun c => c.toLower.toNat := by
    rw [List.map_map]
    exact List.map_congr_left fun c _ => congrArg Char.toNat (Text.toLower_toLower c)
  rw [expand, h, expand]

/-! ## Writing -/

/-- The digits of bytes and of the checksum for a label. -/
def allDigits (label : List Char) (bytes : Bytes) : List Nat :=
  toDigits bytes ++ checksum label (toDigits bytes)

theorem length_allDigits (label : List Char) (bytes : Bytes) :
    (allDigits label bytes).length = (toDigits bytes).length + 6 := by
  rw [allDigits, List.length_append, length_checksum]

theorem allDigits_lt {label : List Char} {bytes : Bytes} : ∀ d ∈ allDigits label bytes, d < 32 :=
  List.forall_mem_append.mpr ⟨toDigits_lt, checksum_lt⟩

/-- The characters of a written text. -/
def written (label : List Char) (bytes : Bytes) : List Char :=
  label.map Char.toLower ++ separator :: (allDigits label bytes).map digitChar

theorem length_written (label : List Char) (bytes : Bytes) :
    (written label bytes).length = label.length + 1 + (toDigits bytes).length + 6 := by
  rw [written, List.length_append, List.length_map, List.length_cons, List.length_map,
    length_allDigits]
  omega

theorem encode_eq_ok {label s : String} {bytes : Bytes} : encode label bytes = .ok s ↔
    labelFault? label.toList = none ∧ (written label.toList bytes).length ≤ maxLength ∧
      s = .ofList (written label.toList bytes) := by
  rw [length_written]
  unfold encode
  dsimp only
  cases labelFault? label.toList with
  | some fault => exact iff_of_false nofun fun h => Option.some_ne_none _ h.1
  | none =>
    dsimp only
    by_cases hlong : maxLength < label.toList.length + 1 + (toDigits bytes).length + 6
    · rw [if_pos hlong]
      exact iff_of_false nofun fun h => Nat.not_le.mpr hlong h.2.1
    · rw [if_neg hlong]
      exact ⟨fun h => ⟨rfl, Nat.not_lt.mp hlong, (Except.ok.inj h).symm⟩,
        fun h => congrArg Except.ok h.2.2.symm⟩

/-- What can be written: any bytes that are few enough, with a label that is one. -/
theorem exists_encode_iff {label : String} {bytes : Bytes} : (∃ s, encode label bytes = .ok s) ↔
    labelFault? label.toList = none ∧
      label.length + 1 + (8 * bytes.length + 4) / 5 + 6 ≤ maxLength := by
  simp only [encode_eq_ok, exists_and_left, exists_eq, and_true]
  rw [length_written, length_toDigits, String.length_toList]

/-- What holds of the label in lowercase, the separator and the digits holds of all characters. -/
theorem forall_mem_written {p : Char → Prop} {label : List Char} (hl : ∀ c ∈ label, p c.toLower)
    (hs : p separator) (hd : ∀ n < 32, p (digitChar n)) (bytes : Bytes) :
    ∀ c ∈ written label bytes, p c := by
  have hdigits : ∀ c ∈ (allDigits label bytes).map digitChar, p c :=
    List.forall_mem_map.mpr fun d h => hd d (allDigits_lt d h)
  refine List.forall_mem_append.mpr ⟨List.forall_mem_map.mpr hl, ?_⟩
  exact List.forall_mem_cons.mpr ⟨hs, hdigits⟩

theorem visible_written {label : List Char} (h : ∀ c ∈ label, Visible c) (bytes : Bytes) :
    ∀ c ∈ written label bytes, Visible c :=
  forall_mem_written (fun c hc => (h c hc).toLower) ⟨by decide, by decide⟩ visible_digitChar bytes

theorem mixesCase_written (label : List Char) (bytes : Bytes) :
    mixesCase (written label bytes) = false := by
  apply mixesCase_of_not_isUpper
  apply forall_mem_written
  · exact fun c _ => Text.isUpper_toLower c
  · rfl
  · exact isUpper_digitChar

/-! ## Reading -/

theorem cutAt?_append {sep : Char} {before : List Char} (h : sep ∉ before) (rest : List Char) :
    Text.cutAt? sep (before ++ sep :: rest) = some (before, rest) := by
  induction before with
  | nil => exact if_pos rfl
  | cons c cs ih =>
    have hc : c ≠ sep := fun he => h (he ▸ List.mem_cons_self)
    have hcs : sep ∉ cs := fun hm => h (List.mem_cons_of_mem c hm)
    rw [List.cons_append, Text.cutAt?, if_neg hc, ih hcs]
    rfl

theorem cutLast?_append (label : List Char) {data : List Char} (h : separator ∉ data) :
    cutLast? (label ++ separator :: data) = some (label, data) := by
  have hr : separator ∉ data.reverse := fun hm => h (List.mem_reverse.mp hm)
  rw [cutLast?, List.reverse_append, List.reverse_cons, List.append_assoc, List.singleton_append,
    cutAt?_append hr, Option.map_some]
  dsimp only
  rw [List.reverse_reverse, List.reverse_reverse]

theorem cutLast?_written (label : List Char) (bytes : Bytes) :
    cutLast? (written label bytes) =
      some (label.map Char.toLower, (allDigits label bytes).map digitChar) := by
  refine cutLast?_append _ fun hm => ?_
  obtain ⟨d, hd, he⟩ := List.mem_map.mp hm
  exact digitChar_ne_separator d (allDigits_lt d hd) he

theorem hasChecksum_written {label : List Char} {bytes : Bytes}
    (h : (written label bytes).length ≤ maxLength) :
    hasChecksum (written label bytes).length (label.map Char.toLower) (allDigits label bytes) := by
  have hr : residue (expand (label.map Char.toLower) ++ allDigits label bytes) = plainConstant := by
    rw [expand_lower, allDigits]
    exact residue_checksum label (toDigits bytes)
  have hd : 6 ≤ (allDigits label bytes).length := by
    rw [length_allDigits]
    exact Nat.le_add_left 6 _
  unfold hasChecksum
  rw [hr, decide_eq_true h, decide_eq_true hd]
  rfl

/-- Blanks are all that trimming takes off a written text. -/
theorem trimmed_encode {label s : String} {bytes : Bytes} (h : encode label bytes = .ok s)
    {before after : String} (hb : Text.allBlank before) (ha : Text.allBlank after) :
    Text.trimmed (before ++ s ++ after) = s := by
  obtain ⟨hl, -, rfl⟩ := encode_eq_ok.mp h
  obtain ⟨-, -, hvisible, -⟩ := labelFault?_eq_none.mp hl
  rw [Text.trimmed, String.toList_append, String.toList_append, String.toList_ofList]
  exact congrArg String.ofList (Text.trim_between (List.all_eq_true.mp hb)
    (fun c hc => (visible_written hvisible bytes c hc).isBlank) (List.all_eq_true.mp ha))

/-- A written text is read back, whatever blanks stand around it. -/
theorem decode_encode {label s : String} {bytes : Bytes} (h : encode label bytes = .ok s)
    {before after : String} (hb : Text.allBlank before) (ha : Text.allBlank after) :
    decode (before ++ s ++ after) = .ok (Text.asciiLower label, bytes) := by
  have ht := trimmed_encode h hb ha
  obtain ⟨hl, hlength, rfl⟩ := encode_eq_ok.mp h
  have hfaultless : ¬ (mixesCase (written label.toList bytes) ∨
      (labelFault? (label.toList.map Char.toLower)).isSome) := by
    rw [mixesCase_written, labelFault?_lower hl]
    nofun
  have hdata : (allDigits label.toList bytes).take ((allDigits label.toList bytes).length - 6) =
      toDigits bytes := by
    rw [length_allDigits, Nat.add_sub_cancel]
    exact List.take_left
  unfold decode
  dsimp only
  rw [ht, String.toList_ofList, cutLast?_written]
  dsimp only
  rw [mapM_digitValue? allDigits_lt]
  dsimp only
  rw [if_neg hfaultless, if_pos (hasChecksum_written hlength), hdata, ofDigits_toDigits,
    Text.asciiLower]

theorem decode_encode_self {label s : String} {bytes : Bytes} (h : encode label bytes = .ok s) :
    decode s = .ok (Text.asciiLower label, bytes) := by
  have hd : decode ("" ++ s ++ "") = .ok (Text.asciiLower label, bytes) := decode_encode h rfl rfl
  rwa [String.empty_append, String.append_empty] at hd

end TrieFeed.Bech32

namespace TrieFeed.Capability

variable {args : Arguments} {v : Value}

theorem codecResult_eq_ok {α : Type} {r : Except CodecError α} {a : α} :
    codecResult r = .ok a ↔ r = .ok a := Outcome.mapError_eq_ok

theorem bytesToBech32_eq_ok : callAddress "bytesToBech32" args = .ok v ↔
    ∃ label bytes s, args.text 1 = .ok label ∧ args.bytes 0 = .ok bytes ∧
      Bech32.encode label bytes = .ok s ∧ .text s = v := by
  have hcall : callAddress "bytesToBech32" args = do
      let label ← args.text 1
      let bytes ← args.bytes 0
      return .text (← codecResult ((Bech32.encode label bytes).mapError (·.toError))) := rfl
  simp only [hcall, Outcome.bind_eq_ok, Outcome.pure_eq_ok, codecResult_eq_ok,
    Outcome.mapError_eq_ok, exists_and_left]

theorem bech32ToBytes_eq_ok : callAddress "bech32ToBytes" args = .ok v ↔
    ∃ text, args.text 0 = .ok text ∧ ∃ label bytes, Bech32.decode text = .ok (label, bytes) ∧
      .bytes bytes = v := by
  have hcall : callAddress "bech32ToBytes" args = do
      return .bytes (← codecResult ((Bech32.decode (← args.text 0)).mapError (·.toError))).2 := rfl
  simp only [hcall, Outcome.bind_eq_ok, Outcome.pure_eq_ok, codecResult_eq_ok,
    Outcome.mapError_eq_ok, Prod.exists]

end TrieFeed.Capability

namespace TrieFeed.Bech32

/-- Few enough bytes can be written with a label that is one, and whatever is written is read back,
with its label in lowercase and all its bytes, from the text and from the text between blanks. So
what a script gets for bytes gives it those bytes again. -/
theorem written_text_reads_back :
    (∀ label bytes, (∃ s, encode label bytes = .ok s) ↔ labelFault? label.toList = none ∧
      label.length + 1 + (8 * bytes.length + 4) / 5 + 6 ≤ 1023) ∧
    (∀ label bytes s, encode label bytes = .ok s → ∀ before after : String,
      Text.allBlank before → Text.allBlank after →
        decode (before ++ s ++ after) = .ok (Text.asciiLower label, bytes)) ∧
    ∀ (args : Arguments) (v : Value), Capability.callAddress "bytesToBech32" args = .ok v →
      ∃ bytes s, args.bytes 0 = .ok bytes ∧ v = .text s ∧ ∀ (back : Arguments)
        (before after : String), Text.allBlank before → Text.allBlank after →
          back.text 0 = .ok (before ++ s ++ after) →
            Capability.callAddress "bech32ToBytes" back = .ok (.bytes bytes) := by
  refine ⟨fun label bytes => exists_encode_iff, fun label bytes s h before after => decode_encode h,
    fun args v h => ?_⟩
  obtain ⟨label, bytes, s, -, hbytes, hs, rfl⟩ := Capability.bytesToBech32_eq_ok.mp h
  refine ⟨bytes, s, hbytes, rfl, fun back before after hb ha ht => ?_⟩
  exact Capability.bech32ToBytes_eq_ok.mpr ⟨_, ht, _, bytes, decode_encode hs hb ha, rfl⟩

/-- Three bytes as a list of numbers, under a capital label with a separator in it. -/
def listed : Arguments :=
  ⟨"chainAddress", "bytesToBech32", [.list [.int 1, .int 2, .int 3], .text "AB1"]⟩

theorem written_text_reads_back_capital :
    encode "AB1" [1, 2, 3] = .ok "ab11qypqxcamnfe" ∧
    decode "\u2003ab11qypqxcamnfe\r\n" = .ok ("ab1", [1, 2, 3]) ∧
    Capability.callAddress "bytesToBech32" listed = .ok (.text "ab11qypqxcamnfe") ∧
    Capability.callAddress "bech32ToBytes"
      ⟨"chainAddress", "bech32ToBytes", [.text " ab11qypqxcamnfe"]⟩ = .ok (.bytes [1, 2, 3]) := by
  obtain ⟨-, hread, hback⟩ := written_text_reads_back
  have hwritten : encode "AB1" [1, 2, 3] = .ok "ab11qypqxcamnfe" := by decide +kernel
  have hcalled : Capability.callAddress "bytesToBech32" listed = .ok (.text "ab11qypqxcamnfe") :=
    Capability.bytesToBech32_eq_ok.mpr ⟨"AB1", [1, 2, 3], _, rfl, rfl, hwritten, rfl⟩
  obtain ⟨bytes, s, hb, hs, hreturn⟩ := hback listed _ hcalled
  cases hb
  cases hs
  exact ⟨hwritten, hread _ _ _ hwritten "\u2003" "\r\n" (by decide) (by decide), hcalled,
    hreturn _ " " "" (by decide) (by decide) rfl⟩

end TrieFeed.Bech32
