import Mathlib.Data.List.Induction
import Mathlib.Data.Nat.Bitwise
import TrieFeed.Chain.Bech32
/-!
# Bytes and five-bit digits

Both are groups of the same bits. Fewer than five zeros fill up the last digit, which make no byte,
so bytes are read back whatever their number.
-/
namespace TrieFeed.Bech32

/-! ## Bits of one group -/

theorem ofBits_snoc (bs : List Bool) (b : Bool) :
    ofBits (bs ++ [b]) = 2 * ofBits bs + if b then 1 else 0 := by
  rw [ofBits, List.foldl_append]
  rfl

theorem length_bits (width n : Nat) : (bits width n).length = width := by
  induction width generalizing n with
  | zero => rfl
  | succ width ih => rw [bits, List.length_append, ih, List.length_singleton]

theorem ofBits_bits {width n : Nat} (h : n < 2 ^ width) : ofBits (bits width n) = n := by
  induction width generalizing n with
  | zero =>
    rw [Nat.lt_one_iff.mp h]
    rfl
  | succ width ih =>
    rw [bits, ofBits_snoc, ih (by omega)]
    by_cases hn : n % 2 = 1 <;> simp [hn] <;> omega

theorem ofBits_lt (bs : List Bool) : ofBits bs < 2 ^ bs.length := by
  induction bs using List.reverseRecOn with
  | nil => decide
  | append_singleton bs b ih =>
    rw [ofBits_snoc, List.length_append, List.length_singleton]
    split <;> omega

theorem bits_ofBits (bs : List Bool) : bits bs.length (ofBits bs) = bs := by
  induction bs using List.reverseRecOn with
  | nil => rfl
  | append_singleton bs b ih =>
    have hhalf : (2 * ofBits bs + if b then 1 else 0) / 2 = ofBits bs := by split <;> omega
    have hlast : ((2 * ofBits bs + if b then 1 else 0) % 2 == 1) = b := by
      cases b <;> simp
    rw [ofBits_snoc, List.length_append, List.length_singleton, bits, hhalf, hlast, ih]

/-! ## Groups -/

section

variable {size fuel : Nat}

/-- Cutting gives groups of full size that, with a shorter rest, are the bits. -/
theorem fullGroups_sound (hs : 0 < size) {bs : List Bool} (hf : bs.length ≤ fuel) :
    (∀ g ∈ (fullGroups size fuel bs).1, g < 2 ^ size) ∧
      (fullGroups size fuel bs).2.length < size ∧
      (fullGroups size fuel bs).1.flatMap (bits size) ++ (fullGroups size fuel bs).2 = bs := by
  induction fuel generalizing bs with
  | zero =>
    cases List.eq_nil_of_length_eq_zero (Nat.le_zero.mp hf)
    exact ⟨nofun, hs, rfl⟩
  | succ fuel ih =>
    rw [fullGroups]
    by_cases hlt : bs.length < size
    · rw [if_pos hlt]
      exact ⟨nofun, hlt, rfl⟩
    · have htake : (bs.take size).length = size :=
        List.length_take_of_le (Nat.not_lt.mp hlt)
      have hdrop : (bs.drop size).length ≤ fuel := by
        rw [List.length_drop]
        omega
      obtain ⟨hsmall, hrest, hwhole⟩ := ih hdrop
      rw [if_neg hlt]
      refine ⟨fun g hg => ?_, hrest, ?_⟩
      · rcases List.mem_cons.mp hg with rfl | hg
        · have := ofBits_lt (bs.take size)
          rwa [htake] at this
        · exact hsmall g hg
      · have hfirst : bits size (ofBits (bs.take size)) = bs.take size := by
          have := bits_ofBits (bs.take size)
          rwa [htake] at this
        rw [List.flatMap_cons, hfirst, List.append_assoc, hwhole, List.take_append_drop]

/-- Groups are found again in their bits, whatever short rest follows. -/
theorem fullGroups_flatMap {groups : List Nat} (hg : ∀ g ∈ groups, g < 2 ^ size)
    {rest : List Bool} (hr : rest.length < size) (hf : groups.length ≤ fuel) :
    fullGroups size fuel (groups.flatMap (bits size) ++ rest) = (groups, rest) := by
  induction groups generalizing fuel with
  | nil =>
    cases fuel with
    | zero => rfl
    | succ fuel => exact if_pos hr
  | cons g groups ih =>
    obtain ⟨fuel, rfl⟩ : ∃ k, fuel = k + 1 := ⟨fuel - 1, by rw [List.length_cons] at hf; omega⟩
    have hlen : (bits size g).length = size := length_bits size g
    rw [List.flatMap_cons, List.append_assoc, fullGroups, if_neg, List.take_left' hlen,
      List.drop_left' hlen, ofBits_bits (hg g List.mem_cons_self),
      ih (fun x hx => hg x (List.mem_cons_of_mem g hx)) (Nat.le_of_succ_le_succ hf)]
    rw [List.length_append, hlen]
    omega

theorem length_flatMap_bits (size : Nat) (groups : List Nat) :
    (groups.flatMap (bits size)).length = size * groups.length := by
  induction groups with
  | nil => rfl
  | cons g groups ih =>
    rw [List.flatMap_cons, List.length_append, length_bits, ih, List.length_cons, Nat.mul_succ,
      Nat.add_comm]

end

/-! ## Bytes -/

/-- The digits of bytes are their bits with fewer than five zeros at the end. -/
theorem toDigits_spec (bytes : Bytes) :
    (∀ d ∈ toDigits bytes, d < 32) ∧ ∃ filled < 5, (toDigits bytes).flatMap (bits 5) =
      (bytes.map UInt8.toNat).flatMap (bits 8) ++ List.replicate filled false := by
  have hbits : (bytes.flatMap fun b => bits 8 b.toNat) = (bytes.map UInt8.toNat).flatMap (bits 8) :=
    (List.flatMap_map ..).symm
  unfold toDigits
  dsimp only
  rw [hbits]
  generalize (bytes.map UInt8.toNat).flatMap (bits 8) = bs
  obtain ⟨hsmall, hrest, hwhole⟩ := fullGroups_sound (show 0 < 5 by decide) (Nat.le_refl bs.length)
  generalize fullGroups 5 bs.length bs = cut at hsmall hrest hwhole ⊢
  obtain ⟨groups, rest⟩ := cut
  dsimp only at hsmall hrest hwhole ⊢
  -- No digit is added to full groups; otherwise the last one is what is left, filled up.
  cases rest with
  | nil =>
    refine ⟨hsmall, 0, by decide, ?_⟩
    rw [List.append_nil] at hwhole
    exact hwhole.trans (List.append_nil bs).symm
  | cons b rest =>
    have hlast : ((b :: rest) ++ List.replicate (5 - (b :: rest).length) false).length = 5 := by
      rw [List.length_append, List.length_replicate]
      omega
    refine ⟨fun d hd => ?_, 5 - (b :: rest).length, by rw [List.length_cons]; omega, ?_⟩
    · rcases List.mem_append.mp hd with hd | hd
      · exact hsmall d hd
      · cases List.mem_singleton.mp hd
        have := ofBits_lt ((b :: rest) ++ List.replicate (5 - (b :: rest).length) false)
        rwa [hlast] at this
    · have hback := bits_ofBits ((b :: rest) ++ List.replicate (5 - (b :: rest).length) false)
      rw [hlast] at hback
      rw [List.isEmpty_cons, if_neg Bool.false_ne_true, List.flatMap_append, List.flatMap_singleton,
        hback, ← List.append_assoc, hwhole]

theorem toDigits_lt {bytes : Bytes} : ∀ d ∈ toDigits bytes, d < 32 := (toDigits_spec bytes).1

theorem length_toDigits (bytes : Bytes) : (toDigits bytes).length = (8 * bytes.length + 4) / 5 := by
  obtain ⟨-, filled, hf, hbits⟩ := toDigits_spec bytes
  have hlen := congrArg List.length hbits
  rw [length_flatMap_bits, List.length_append, length_flatMap_bits, List.length_map,
    List.length_replicate] at hlen
  omega

/-- Bytes are read back from their digits. -/
theorem ofDigits_toDigits (bytes : Bytes) : ofDigits (toDigits bytes) = bytes := by
  obtain ⟨-, filled, hf, hbits⟩ := toDigits_spec bytes
  have hsmall : ∀ n ∈ bytes.map UInt8.toNat, n < 2 ^ 8 := by
    intro n hn
    obtain ⟨b, -, rfl⟩ := List.mem_map.mp hn
    exact b.toNat_lt
  have hrest : (List.replicate filled false).length < 8 := by
    rw [List.length_replicate]
    omega
  have hfuel : (bytes.map UInt8.toNat).length ≤
      ((bytes.map UInt8.toNat).flatMap (bits 8) ++ List.replicate filled false).length := by
    rw [List.length_append, length_flatMap_bits]
    omega
  have hread : (bytes.map UInt8.toNat).map UInt8.ofNat = bytes := by
    rw [List.map_map]
    exact List.map_id'' (fun _ => UInt8.ofNat_toNat) bytes
  unfold ofDigits
  dsimp only
  rw [hbits, fullGroups_flatMap hsmall hrest hfuel, hread]

end TrieFeed.Bech32
