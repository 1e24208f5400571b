import Mathlib.Data.List.Basic
import TrieFeed.Chain.Address
import TrieFeed.Proofs.Chain.Bech32
import TrieFeed.Proofs.Codec.Hex
import TrieFeed.Proofs.Text.Occurrence
/-!
# Credentials of addresses and pools

An address that is read is long enough for every credential its kind carries, and what is written
under a suitable label is read with its credentials at their places. The key hash of a pool is read
from both of its forms.
-/
namespace TrieFeed.Address

/-! ## Reading an address -/

section

variable {text label e : String} {payload bytes : Bytes} {kind : Kind}

theorem classify_eq_ok : classify payload = .ok kind ↔
    ∃ header rest, payload = header :: rest ∧ Kind.ofHeader header = .ok kind ∧
      kind.minSize ≤ payload.length := by
  cases payload with
  | nil => exact iff_of_false nofun fun ⟨_, _, h, _⟩ => nomatch h
  | cons header rest =>
    have hiff : classify (header :: rest) = .ok kind ↔
        Kind.ofHeader header = .ok kind ∧ kind.minSize ≤ (header :: rest).length := by
      rw [classify]
      cases Kind.ofHeader header with
      | error fault => exact iff_of_false nofun fun h => nomatch h.1
      | ok found =>
        dsimp only
        split
        · rename_i hshort
          refine iff_of_false nofun fun ⟨hk, hsize⟩ => ?_
          cases hk
          exact Nat.not_le.mpr hshort hsize
        · rename_i hlong
          refine ⟨fun h => ?_, fun h => h.1⟩
          cases h
          exact ⟨rfl, Nat.not_lt.mp hlong⟩
    rw [hiff]
    refine ⟨fun h => ⟨header, rest, rfl, h⟩, fun ⟨_, _, hp, h⟩ => ?_⟩
    cases hp
    exact h

/-- Whether a label suits a kind. -/
def Kind.Suits (kind : Kind) (label : String) : Prop :=
  label = kind.label ∨ label = kind.label ++ "_test"

theorem Kind.Suits.asciiLower (h : kind.Suits label) : Text.asciiLower label = label := by
  rcases h with rfl | rfl <;> cases kind <;> decide

theorem read_eq_ok : read text = .ok (kind, bytes) ↔
    ∃ label, Bech32.decode text = .ok (label, bytes) ∧ classify bytes = .ok kind ∧
      kind.Suits label := by
  unfold read
  cases Bech32.decode text with
  | error fault => exact iff_of_false nofun fun ⟨_, h, _⟩ => nomatch h
  | ok found =>
    obtain ⟨label, payload⟩ := found
    dsimp only
    cases hc : classify payload with
    | error fault =>
      refine iff_of_false nofun fun ⟨_, h, hk, _⟩ => ?_
      cases h
      cases hc.symm.trans hk
    | ok found =>
      dsimp only
      split
      · rename_i hl
        refine ⟨fun h => ?_, fun ⟨_, h, hk, _⟩ => ?_⟩
        · cases h
          exact ⟨label, rfl, hc, hl⟩
        · cases h
          cases hc.symm.trans hk
          rfl
      · rename_i hl
        refine iff_of_false nofun fun ⟨_, h, hk, hs⟩ => ?_
        cases h
        cases hc.symm.trans hk
        exact hl hs

theorem minSize_le_of_read (h : read text = .ok (kind, bytes)) : kind.minSize ≤ bytes.length := by
  obtain ⟨label, -, hc, -⟩ := read_eq_ok.mp h
  obtain ⟨-, -, -, -, hm⟩ := classify_eq_ok.mp hc
  exact hm

/-- An address that was written under a suitable label is read as it was. -/
theorem read_encode (he : Bech32.encode label payload = .ok e) (hc : classify payload = .ok kind)
    (hl : kind.Suits label) : read e = .ok (kind, payload) := by
  have hd := Bech32.decode_encode_self he
  rw [hl.asciiLower] at hd
  exact read_eq_ok.mpr ⟨label, hd, hc, hl⟩

/-! ## Credentials -/

theorem credentialSize_le_minSize : ∀ kind : Kind, 1 + credentialSize ≤ kind.minSize
  | .base | .pointer | .enterprise | .reward => by decide

theorem length_credentialAt {place : Nat} (h : 1 + (place + 1) * credentialSize ≤ bytes.length) :
    (credentialAt place bytes).length = credentialSize := by
  rw [credentialAt, List.length_take, List.length_drop]
  unfold credentialSize at *
  omega

theorem length_of_delegationCredential {b : Bytes} (h : delegationCredential text = .ok b) :
    b.length = credentialSize := by
  unfold delegationCredential at h
  split at h
  · cases h
  · rename_i hr
    cases h
    exact length_credentialAt (minSize_le_of_read hr)
  · rename_i hr
    cases h
    exact length_credentialAt (minSize_le_of_read hr)
  · cases h

theorem length_of_paymentCredential {b : Bytes} (h : paymentCredential text = .ok b) :
    b.length = credentialSize := by
  unfold paymentCredential at h
  split at h
  · cases h
  · cases h
  · rename_i kind bytes _ hr
    cases h
    exact length_credentialAt
      (Nat.le_trans (credentialSize_le_minSize kind) (minSize_le_of_read hr))

theorem length_of_poolKeyHash {b : Bytes} (h : poolKeyHash text = .ok b) :
    b.length = credentialSize := by
  unfold poolKeyHash at h
  split at h
  · cases h
  · split at h
    · rename_i hb
      cases h
      exact hb
    · cases h

/-- What is read of the text of an address: its bytes, and the credentials where it has them. -/
structure Reads (text : String) (bytes : Bytes) (payment delegation : Option Bytes) : Prop where
  bytes : toBytes text = .ok bytes
  payment : (paymentCredential text).toOption = payment
  delegation : (delegationCredential text).toOption = delegation

/-- The credentials of an address by its kind. -/
theorem reads_of_read (h : read text = .ok (kind, bytes)) :
    Reads text bytes (if kind = .reward then none else some (bytes.extract 1 29))
      (if kind = .base then some (bytes.extract 29 57)
        else if kind = .reward then some (bytes.extract 1 29) else none) := by
  constructor
  · rw [toBytes, h]
    rfl
  · rw [paymentCredential, h]
    cases kind <;> rfl
  · rw [delegationCredential, h]
    cases kind <;> rfl

end

/-! ## Pools -/

section

variable {text : String} {bytes : Bytes}

theorem poolKeyHash_of_poolBytes (h : poolBytes text = .ok bytes)
    (hs : bytes.length = credentialSize) : poolKeyHash text = .ok bytes := by
  rw [poolKeyHash, h]
  exact if_pos hs

/-- Digits are not taken for bech32: the first letter of the pool label is neither one of them nor in
a mark. -/
theorem poolBytes_of_digits {before mark t after : String} (hb : Text.allBlank before)
    (hm : Hex.IsMark mark) (h : Hex.Writes t.toList bytes) (ha : Text.allBlank after) :
    poolBytes (before ++ (mark ++ t) ++ after) = .ok bytes := by
  have htrim := Hex.trimmed_between hm h hb ha
  have hp : 'p' ∉ (mark ++ t).toList := by
    rw [String.toList_append, List.mem_append]
    rintro (hp | hp)
    · rcases hm with rfl | rfl | rfl <;> revert hp <;> decide
    · obtain ⟨n, hn, hd⟩ := h.digits 'p' hp
      have := Hex.toNat_of_lower hn hd
      have : 'p'.toNat = 112 := rfl
      omega
  have hnot : ¬ (Text.after? "pool".toList (mark ++ t).toList).isSome := fun hs =>
    hp ((Text.isSome_after?.mp hs).subset (by decide))
  unfold poolBytes
  dsimp only
  rw [htrim, if_neg hnot, Hex.decode_of_trimmed hm h (Hex.trimmed_self hm h)]
  rfl

theorem poolBytes_encode {s before after : String} (hs : Bech32.encode "pool" bytes = .ok s)
    (hb : Text.allBlank before) (ha : Text.allBlank after) :
    poolBytes (before ++ s ++ after) = .ok bytes := by
  have hlabel : (Text.after? "pool".toList s.toList).isSome := by
    obtain ⟨-, -, hs⟩ := Bech32.encode_eq_ok.mp hs
    have hlead : "pool".toList <+: Bech32.written "pool".toList bytes := List.prefix_append _ _
    have hchars : s.toList = Bech32.written "pool".toList bytes := by
      rw [hs]
      exact String.toList_ofList
    exact Text.isSome_after?.mpr (hchars ▸ hlead)
  unfold poolBytes
  dsimp only
  rw [Bech32.trimmed_encode hs hb ha, if_pos hlabel, Bech32.decode_encode_self hs]
  exact if_pos (by decide)

end

/-! ## Written addresses -/

section

variable {label e : String} {header : UInt8} {rest : Bytes}

/-- The values of the high half of a header that name a kind. -/
def Kind.numbers : Kind → List Nat
  | .base => List.range 4
  | .pointer => [4, 5]
  | .enterprise => [6, 7]
  | .reward => [14, 15]

theorem ofHeader_of_mem {kind : Kind} (h : header.toNat / 16 ∈ kind.numbers) :
    Kind.ofHeader header = .ok kind := by
  unfold Kind.ofHeader
  generalize header.toNat / 16 = number at h ⊢
  revert number
  cases kind <;> decide

/-- What is read of an address that was written under a suitable label, by the kind of its header. -/
theorem reads_encode {kind : Kind} (he : Bech32.encode label (header :: rest) = .ok e)
    (hk : header.toNat / 16 ∈ kind.numbers) (hs : kind.minSize ≤ (header :: rest).length)
    (hl : kind.Suits label) :
    Reads e (header :: rest)
      (if kind = .reward then none else some ((header :: rest).extract 1 29))
      (if kind = .base then some ((header :: rest).extract 29 57)
        else if kind = .reward then some ((header :: rest).extract 1 29) else none) :=
  reads_of_read (read_encode he (classify_eq_ok.mpr ⟨header, rest, rfl, ofHeader_of_mem hk, hs⟩) hl)

end

/-- The key hash of a pool is read from its digits in either case, and from the text that is written
with the pool label. -/
theorem poolKeyHash_of_forms {hash : Bytes} (hs : hash.length = credentialSize) :
    (∀ before mark t after : String, Text.allBlank before → Text.allBlank after →
      Hex.IsMark mark → Text.asciiLower t = Hex.encode hash →
        poolKeyHash (before ++ (mark ++ t) ++ after) = .ok hash) ∧
    ∃ s, Bech32.encode "pool" hash = .ok s ∧ ∀ before after : String,
      Text.allBlank before → Text.allBlank after →
        poolKeyHash (before ++ s ++ after) = .ok hash := by
  refine ⟨fun before mark t after hb ha hm ht => ?_, ?_⟩
  · exact poolKeyHash_of_poolBytes (poolBytes_of_digits hb hm (.of_lower ht) ha) hs
  · have hshort : "pool".length + 1 + (8 * hash.length + 4) / 5 + 6 ≤ Bech32.maxLength := by
      rw [hs]
      decide
    obtain ⟨s, hw⟩ := Bech32.exists_encode_iff.mpr ⟨by decide, hshort⟩
    refine ⟨s, hw, fun before after hb ha => ?_⟩
    exact poolKeyHash_of_poolBytes (poolBytes_encode hw hb ha) hs

/-- A credential or key hash that is read has twenty-eight bytes, and every address that is read is
long enough for the parts that are taken of it. An address written under a label that suits its
header, and long enough for that, is read as it was, with each credential that its kind carries at
its place and an error for one that it does not. The key hash of a pool is read from its digits, in
either case, marked or not and between blanks, and from its bech32 text. -/
theorem credentials_at_their_places :
    (∀ text b, delegationCredential text = .ok b ∨ paymentCredential text = .ok b ∨
      poolKeyHash text = .ok b → b.length = 28) ∧
    (∀ text kind bytes, read text = .ok (kind, bytes) →
      29 ≤ bytes.length ∧ (kind = .base → 57 ≤ bytes.length)) ∧
    (∀ label e header rest, Bech32.encode label (header :: rest) = .ok e →
      let payload := header :: rest
      let nibble := header.toNat / 16
      (label = "addr" ∨ label = "addr_test" →
        (nibble ≤ 3 → 57 ≤ payload.length →
          Reads e payload (some (payload.extract 1 29)) (some (payload.extract 29 57))) ∧
        (nibble = 4 ∨ nibble = 5 → 32 ≤ payload.length →
          Reads e payload (some (payload.extract 1 29)) none) ∧
        (nibble = 6 ∨ nibble = 7 → 29 ≤ payload.length →
          Reads e payload (some (payload.extract 1 29)) none)) ∧
      (label = "stake" ∨ label = "stake_test" → nibble = 14 ∨ nibble = 15 →
        29 ≤ payload.length → Reads e payload none (some (payload.extract 1 29)))) ∧
    ∀ hash : Bytes, hash.length = 28 →
      (∀ before mark t after : String, Text.allBlank before → Text.allBlank after →
        mark = "" ∨ mark = "0x" ∨ mark = "0X" → Text.asciiLower t = Hex.encode hash →
          poolKeyHash (before ++ (mark ++ t) ++ after) = .ok hash) ∧
      ∃ s, Bech32.encode "pool" hash = .ok s ∧ ∀ before after : String,
        Text.allBlank before → Text.allBlank after →
          poolKeyHash (before ++ s ++ after) = .ok hash := by
  refine ⟨?_, fun text kind bytes hr => ⟨?_, ?_⟩, fun label e header rest he => ⟨?_, ?_⟩,
    fun hash hs => poolKeyHash_of_forms hs⟩
  · rintro text b (h | h | h)
    · exact length_of_delegationCredential h
    · exact length_of_paymentCredential h
    · exact length_of_poolKeyHash h
  · exact Nat.le_trans (credentialSize_le_minSize kind) (minSize_le_of_read hr)
  · rintro rfl
    exact minSize_le_of_read hr
  · refine fun hl => ⟨fun hn hs => ?_, fun hn hs => ?_, fun hn hs => ?_⟩
    · have hk : header.toNat / 16 ∈ Kind.base.numbers := List.mem_range.mpr (Nat.lt_succ_of_le hn)
      exact reads_encode he hk hs hl
    · have hk : header.toNat / 16 ∈ Kind.pointer.numbers := List.mem_pair.mpr hn
      exact reads_encode he hk hs hl
    · have hk : header.toNat / 16 ∈ Kind.enterprise.numbers := List.mem_pair.mpr hn
      exact reads_encode he hk hs hl
  · intro hl hn hs
    have hk : header.toNat / 16 ∈ Kind.reward.numbers := List.mem_pair.mpr hn
    exact reads_encode he hk hs hl

/-- A base address of the test network, one byte longer than it has to be. -/
def longBase : Bytes := 0x00 :: List.replicate 28 0xaa ++ List.replicate 28 0xbb ++ [0xcc]

/-- The text of that address. -/
def longBaseText : String := "addr_test1qz42424242424242424242424242424242424242424242" ++
  "4mhwamhwamhwamhwamhwamhwamhwamhwamhwamhwamhwauc4ryv6l"

theorem credentials_at_their_places_long :
    Bech32.encode "addr_test" longBase = .ok longBaseText ∧
    (paymentCredential longBaseText).toOption = some (List.replicate 28 0xaa) ∧
    (delegationCredential longBaseText).toOption = some (List.replicate 28 0xbb) ∧
    poolKeyHash ("\t" ++ ("0X" ++ .ofList (List.replicate 56 'A')) ++ " ") =
      .ok (List.replicate 28 0xaa) := by
  obtain ⟨-, -, hwritten, hpool⟩ := credentials_at_their_places
  have he : Bech32.encode "addr_test" longBase = .ok longBaseText := by decide +kernel
  have hreads := ((hwritten "addr_test" longBaseText 0x00 longBase.tail he).1 (.inr rfl)).1
    (by decide) (by decide)
  refine ⟨he, hreads.payment, hreads.delegation, ?_⟩
  exact (hpool (List.replicate 28 0xaa) rfl).1 "\t" "0X" _ " " (by decide) (by decide)
    (.inr (.inr rfl)) (by decide)

end TrieFeed.Address
