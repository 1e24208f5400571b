import TrieFeed.Codec.Plutus
import TrieFeed.Proofs.Codec.UniqueReading
/-!
# Plutus data are read in one way

Constructors are tags before lists, and share the major type of tags with large numbers. A reader
that knows only which tag stands for which alternative takes back all data from their binary form,
whatever bytes follow.
-/
namespace TrieFeed

open Cbor (header header? take? many? pair? magnitude?)

mutual

/-- Numbers of 128 bits, alternatives of 32, and lengths that an argument can hold. -/
def PlutusData.Fits : PlutusData → Prop
  | .constr alternative fields =>
    alternative < Nat.pow 2 32 ∧ fields.length < Nat.pow 2 64 ∧ PlutusData.AllFit fields
  | .map entries => entries.length < Nat.pow 2 64 ∧ PlutusData.EntriesFit entries
  | .list items => items.length < Nat.pow 2 64 ∧ PlutusData.AllFit items
  | .int n => Numeral.fitsSigned 128 n
  | .bytes b => b.length < Nat.pow 2 64

def PlutusData.AllFit : List PlutusData → Prop
  | [] => True
  | item :: rest => item.Fits ∧ PlutusData.AllFit rest

def PlutusData.EntriesFit : List (PlutusData × PlutusData) → Prop
  | [] => True
  | (key, value) :: rest => key.Fits ∧ value.Fits ∧ PlutusData.EntriesFit rest

end

namespace PlutusData

/-! ## The reader -/

/-- The alternative that a tag stands for. -/
def alternative? (tag : Nat) : Option Nat :=
  if 121 ≤ tag ∧ tag ≤ 127 then some (tag - 121)
  else if 1280 ≤ tag then some (tag - 1273)
  else none

section

variable (read : Bytes → Option (PlutusData × Bytes))

/-- The fields of a constructor, which are a list. -/
def fields? (input : Bytes) : Option (List PlutusData × Bytes) :=
  (header? input).bind fun ((major, n), rest) => if major = 4 then many? read n rest else none

def tagged? (tag : Nat) (input : Bytes) : Option (PlutusData × Bytes) :=
  match tag with
  | 2 => (magnitude? input).map fun (n, rest) => (.int (.ofNat n), rest)
  | 3 => (magnitude? input).map fun (n, rest) => (.int (.negSucc n), rest)
  | tag =>
    (alternative? tag).bind fun alternative =>
      (fields? read input).map fun (fields, rest) => (.constr alternative fields, rest)

/-- What follows a header, when parts are read by `read`. -/
def body? (major n : Nat) (input : Bytes) : Option (PlutusData × Bytes) :=
  match major with
  | 0 => some (.int (.ofNat n), input)
  | 1 => some (.int (.negSucc n), input)
  | 2 => (take? n input).map fun (b, rest) => (.bytes b, rest)
  | 4 => (many? read n input).map fun (items, rest) => (.list items, rest)
  | 5 => (many? (pair? read) n input).map fun (entries, rest) => (.map entries, rest)
  | 6 => tagged? read n input
  | _ => none

end

/-- The data at the start, of at most so many levels. -/
def data? : Nat → Bytes → Option (PlutusData × Bytes)
  | 0, _ => none
  | levels + 1, input =>
    (header? input).bind fun ((major, n), rest) => body? (data? levels) major n rest

/-- The data at the start and what comes after them. -/
def read? (input : Bytes) : Option (PlutusData × Bytes) := data? input.length input

/-! ## Tags of alternatives -/

theorem alternative?_constrTag (alternative : Nat) :
    alternative? (Cbor.constrTag alternative) = some alternative := by
  rw [Cbor.constrTag, alternative?]
  split
  · rw [if_pos (by omega), Nat.add_sub_cancel_left]
  · rw [if_neg (by omega), if_pos (by omega), Option.some.injEq]
    omega

theorem constrTag_injective {a b : Nat} (h : Cbor.constrTag a = Cbor.constrTag b) : a = b := by
  have ha := alternative?_constrTag a
  rw [h, alternative?_constrTag b] at ha
  exact (Option.some.inj ha).symm

/-- The tags of large numbers are no constructor's. -/
theorem le_constrTag (alternative : Nat) : 121 ≤ Cbor.constrTag alternative := by
  rw [Cbor.constrTag]
  split <;> omega

theorem constrTag_lt {alternative : Nat} (h : alternative < Nat.pow 2 32) :
    Cbor.constrTag alternative < Nat.pow 2 64 := by
  simp only [Nat.pow_eq, Nat.reducePow] at h ⊢
  rw [Cbor.constrTag]
  split <;> omega

/-! ## What is written is read back -/

section

variable {read : Bytes → Option (PlutusData × Bytes)} {levels major n : Nat} {rest : Bytes}

theorem data?_header (rest : Bytes) (hm : major < 8) (hn : n < Nat.pow 2 64) :
    data? (levels + 1) (header major n ++ rest) = body? (data? levels) major n rest := by
  rw [data?, Cbor.header?_header rest hm hn, Option.bind_some]

theorem tagged?_constrTag (alternative : Nat) (input : Bytes) :
    tagged? read (Cbor.constrTag alternative) input =
      (fields? read input).map fun (fields, rest) => (.constr alternative fields, rest) := by
  have hle := le_constrTag alternative
  rw [tagged?, alternative?_constrTag, Option.bind_some]
  · omega
  · omega

theorem fields?_header (rest : Bytes) (hn : n < Nat.pow 2 64) :
    fields? read (header 4 n ++ rest) = many? read n rest := by
  rw [fields?, Cbor.header?_header rest (by decide) hn, Option.bind_some]
  exact if_pos rfl

end

/-- A number past 64 bits is read from its tag and its magnitude. -/
theorem data?_int (levels : Nat) (n : Int) (rest : Bytes) (h : Numeral.fitsSigned 128 n) :
    data? (levels + 1) (Cbor.int n ++ rest) = some (.int n, rest) := by
  cases n with
  | ofNat n =>
    rw [Cbor.int, Cbor.number]
    by_cases hn : n < Nat.pow 2 64
    · rw [if_pos hn, data?_header rest (by decide) hn]
      rfl
    · have hw := Cbor.width_of_fits (Cbor.fits_ofNat h)
      rw [if_neg hn, Cbor.tag, List.append_assoc, data?_header _ (by decide) (by decide), body?,
        tagged?, Cbor.magnitude?_byteString rest (Nat.not_lt.mp hn) hw]
      rfl
  | negSucc n =>
    rw [Cbor.int, Cbor.number]
    by_cases hn : n < Nat.pow 2 64
    · rw [if_pos hn, data?_header rest (by decide) hn]
      rfl
    · have hw := Cbor.width_of_fits (Cbor.fits_negSucc h)
      rw [if_neg hn, Cbor.tag, List.append_assoc, data?_header _ (by decide) (by decide), body?,
        tagged?, Cbor.magnitude?_byteString rest (Nat.not_lt.mp hn) hw]
      rfl

theorem toCbor_length (d : PlutusData) : 0 < (toCbor d).length := by
  cases d with
  | constr alternative fields =>
    rw [toCbor, List.append_assoc, Cbor.tag]
    exact Cbor.header_append_pos ..
  | map entries => rw [toCbor]; exact Cbor.header_append_pos ..
  | list items => rw [toCbor]; exact Cbor.header_append_pos ..
  | int n => rw [toCbor]; exact Cbor.int_length n
  | bytes b => rw [toCbor, Cbor.byteString]; exact Cbor.header_append_pos ..

mutual

theorem data?_toCbor : ∀ (d : PlutusData) (levels : Nat) (rest : Bytes), d.Fits →
    (toCbor d).length ≤ levels → data? levels (toCbor d ++ rest) = some (d, rest)
  | d, 0, _, _, hl => absurd (toCbor_length d) (by omega)
  | .constr alternative fields, levels + 1, rest, h, hl => by
    rw [Fits] at h
    have hp := Cbor.header_pos 6 (Cbor.constrTag alternative)
    rw [toCbor, Cbor.tag, List.length_append, List.length_append] at hl
    rw [toCbor, Cbor.tag, List.append_assoc, List.append_assoc,
      data?_header _ (by decide) (constrTag_lt h.1), body?, tagged?_constrTag,
      fields?_header _ h.2.1, many?_listToCbor fields levels rest h.2.2 (by omega)]
    rfl
  | .map entries, levels + 1, rest, h, hl => by
    rw [Fits] at h
    have hp := Cbor.header_pos 5 entries.length
    rw [toCbor, List.length_append] at hl
    rw [toCbor, List.append_assoc, data?_header _ (by decide) h.1, body?,
      many?_entriesToCbor entries levels rest h.2 (by omega)]
    rfl
  | .list items, levels + 1, rest, h, hl => by
    rw [Fits] at h
    have hp := Cbor.header_pos 4 items.length
    rw [toCbor, List.length_append] at hl
    rw [toCbor, List.append_assoc, data?_header _ (by decide) h.1, body?,
      many?_listToCbor items levels rest h.2 (by omega)]
    rfl
  | .int n, levels + 1, rest, h, _ => by
    rw [Fits] at h
    rw [toCbor, data?_int levels n rest h]
  | .bytes b, levels + 1, rest, h, _ => by
    rw [Fits] at h
    rw [toCbor, Cbor.byteString, List.append_assoc, data?_header _ (by decide) h, body?,
      Cbor.take?_append]
    rfl

theorem many?_listToCbor : ∀ (items : List PlutusData) (levels : Nat) (rest : Bytes),
    AllFit items → (listToCbor items).length ≤ levels →
    many? (data? levels) items.length (listToCbor items ++ rest) = some (items, rest)
  | [], _, _, _, _ => by rw [listToCbor]; rfl
  | item :: items, levels, rest, h, hl => by
    rw [AllFit] at h
    rw [listToCbor, List.length_append] at hl
    rw [listToCbor, List.append_assoc]
    exact Cbor.many?_cons (data?_toCbor item levels _ h.1 (by omega))
      (many?_listToCbor items levels rest h.2 (by omega))

theorem many?_entriesToCbor : ∀ (entries : List (PlutusData × PlutusData)) (levels : Nat)
    (rest : Bytes), EntriesFit entries → (entriesToCbor entries).length ≤ levels →
    many? (pair? (data? levels)) entries.length (entriesToCbor entries ++ rest) =
      some (entries, rest)
  | [], _, _, _, _ => by rw [entriesToCbor]; rfl
  | (key, value) :: entries, levels, rest, h, hl => by
    rw [EntriesFit] at h
    rw [entriesToCbor, List.length_append, List.length_append] at hl
    rw [entriesToCbor, List.append_assoc, List.append_assoc]
    exact Cbor.many?_cons (Cbor.pair?_intro (data?_toCbor key levels _ h.1 (by omega))
      (data?_toCbor value levels _ h.2.1 (by omega)))
      (many?_entriesToCbor entries levels rest h.2.2 (by omega))

end

theorem read?_toCbor {d : PlutusData} (rest : Bytes) (h : d.Fits) :
    read? (toCbor d ++ rest) = some (d, rest) :=
  data?_toCbor d _ rest h (by rw [List.length_append]; exact Nat.le_add_right _ _)

theorem toCbor_append_inj {d e : PlutusData} {rest tail : Bytes} (hd : d.Fits) (he : e.Fits)
    (h : toCbor d ++ rest = toCbor e ++ tail) : d = e ∧ rest = tail := by
  have hr := read?_toCbor rest hd
  rw [h, read?_toCbor tail he] at hr
  cases hr
  exact ⟨rfl, rfl⟩

/-! ## The first byte -/

/-- The first byte tells the major type. -/
theorem header_initial (major n : Nat) :
    ∃ low tail, low < 32 ∧ header major n = .ofNat (32 * major + low) :: tail := by
  unfold header
  repeat' split
  all_goals exact ⟨_, _, by omega, rfl⟩

theorem header_append_ne {major other : Nat} (hm : major < 8) (ho : other < 8)
    (hne : major ≠ other) (n k : Nat) (rest tail : Bytes) :
    header major n ++ rest ≠ header other k ++ tail := by
  obtain ⟨low, after, hl, hh⟩ := header_initial major n
  obtain ⟨low', after', hl', hh'⟩ := header_initial other k
  intro h
  rw [hh, hh', List.cons_append, List.cons_append, List.cons.injEq] at h
  have hb := congrArg UInt8.toNat h.1
  rw [Utf8.toNat_ofNat (by omega), Utf8.toNat_ofNat (by omega)] at hb
  omega

/-- All data are read back from their binary form, which is the start of no other data's. Each
alternative has a tag of its own, which is none of the tags of large numbers, and no constructor
looks like a list. -/
theorem toCbor_uniquely_readable :
    (∀ d rest, d.Fits → read? (toCbor d ++ rest) = some (d, rest)) ∧
    (∀ d e rest tail, d.Fits → e.Fits → toCbor d ++ rest = toCbor e ++ tail →
      d = e ∧ rest = tail) ∧
    (∀ a b, Cbor.constrTag a = Cbor.constrTag b → a = b) ∧
    (∀ a, Cbor.constrTag a ≠ 2 ∧ Cbor.constrTag a ≠ 3) ∧
    ∀ a fields items rest tail,
      toCbor (.constr a fields) ++ rest ≠ toCbor (.list items) ++ tail := by
  refine ⟨fun _ rest h => read?_toCbor rest h, fun _ _ _ _ hd he h => toCbor_append_inj hd he h,
    fun _ _ h => constrTag_injective h, fun a => ?_, fun a fields items rest tail => ?_⟩
  · have hle := le_constrTag a
    constructor <;> omega
  · rw [toCbor, toCbor, Cbor.tag, List.append_assoc, List.append_assoc, List.append_assoc]
    apply header_append_ne <;> decide

/-- The largest alternative, around a constructor without fields and the least number past 64 bits
below zero. -/
def lastAlternative : PlutusData :=
  .constr (Nat.pow 2 32 - 1) [.constr 6 [], .int (-(Nat.pow 2 64) - 1)]

/-- The same parts, of which the first is a list. -/
def lastWithList : PlutusData :=
  .constr (Nat.pow 2 32 - 1) [.list [], .int (-(Nat.pow 2 64) - 1)]

theorem uniquely_readable_alternatives :
    lastAlternative.Fits ∧ lastWithList.Fits ∧
      read? (toCbor lastAlternative ++ [0]) = some (lastAlternative, [0]) ∧
      toCbor lastAlternative ++ [0] ≠ toCbor lastWithList ++ [1] ∧
      toCbor lastAlternative ≠ toCbor lastWithList ∧ Cbor.constrTag 6 ≠ Cbor.constrTag 7 := by
  have hf : lastAlternative.Fits := by
    simp only [lastAlternative, Fits, AllFit]
    decide
  have hl : lastWithList.Fits := by
    simp only [lastWithList, Fits, AllFit]
    decide
  have hne : lastAlternative ≠ lastWithList := by
    simp [lastAlternative, lastWithList]
  refine ⟨hf, hl, toCbor_uniquely_readable.1 _ _ hf, fun h => ?_, fun h => ?_, fun h => ?_⟩
  · exact hne (toCbor_uniquely_readable.2.1 _ _ _ _ hf hl h).1
  · exact hne (toCbor_uniquely_readable.2.1 _ _ [] [] hf hl (by rw [h])).1
  · exact absurd (toCbor_uniquely_readable.2.2.1 _ _ h) (by decide)

end PlutusData

end TrieFeed
