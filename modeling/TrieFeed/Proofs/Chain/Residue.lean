import Mathlib.Data.Nat.Bitwise
import TrieFeed.Chain.Bech32
/-!
# The checksum fits what it is written for

A step of the checksum register is linear for exclusive or. So the digits of a checksum act on the
register as if it were empty, and an empty register just collects six digits.
-/
namespace TrieFeed.Bech32

/-! ## Exclusive or -/

theorem xor_exchange (a b c d : Nat) : a ^^^ b ^^^ (c ^^^ d) = a ^^^ c ^^^ (b ^^^ d) := by
  ac_rfl

theorem xor_mul_two_pow (a b n : Nat) : (a ^^^ b) * 2 ^ n = a * 2 ^ n ^^^ b * 2 ^ n := by
  rw [← Nat.shiftLeft_eq, Nat.shiftLeft_xor_distrib, Nat.shiftLeft_eq, Nat.shiftLeft_eq]

theorem mul_two_pow_xor (a : Nat) {b n : Nat} (hb : b < 2 ^ n) :
    a * 2 ^ n ^^^ b = 2 ^ n * a + b := by
  refine Nat.eq_of_testBit_eq fun i => ?_
  rw [Nat.testBit_xor, Nat.testBit_mul_two_pow, Nat.testBit_two_pow_mul_add a hb]
  by_cases hi : i < n
  · rw [if_pos hi, decide_eq_false (Nat.not_le.mpr hi), Bool.false_and, Bool.false_xor]
  · have hle : n ≤ i := Nat.not_lt.mp hi
    have hhigh : b.testBit i = false :=
      Nat.testBit_lt_two_pow (Nat.lt_of_lt_of_le hb (Nat.pow_le_pow_right (by decide) hle))
    rw [if_neg hi, decide_eq_true hle, Bool.true_and, hhigh, Bool.xor_false]

/-! ## One step -/

/-- Takes one constant of the generator into the register, if its bit has left that. -/
def feed (top acc : Nat) (tap : Nat × Nat) : Nat :=
  if top.testBit tap.2 then acc ^^^ tap.1 else acc

theorem step_eq (r d : Nat) :
    step r d = generator.zipIdx.foldl (feed (r / 2 ^ 25)) ((r % 2 ^ 25 * 2 ^ 5) ^^^ d) := rfl

theorem feed_zero (acc : Nat) (tap : Nat × Nat) : feed 0 acc tap = acc := by
  rw [feed, Nat.zero_testBit, if_neg Bool.false_ne_true]

theorem feed_xor (top top' r r' : Nat) (tap : Nat × Nat) :
    feed (top ^^^ top') (r ^^^ r') tap = feed top r tap ^^^ feed top' r' tap := by
  unfold feed
  rw [Nat.testBit_xor]
  cases top.testBit tap.2 <;> cases top'.testBit tap.2
  · rfl
  · exact Nat.xor_assoc r r' tap.1
  · exact Nat.xor_right_comm r r' tap.1
  · calc
      r ^^^ r' = r ^^^ r' ^^^ (tap.1 ^^^ tap.1) := by rw [Nat.xor_self, Nat.xor_zero]
      _ = r ^^^ tap.1 ^^^ (r' ^^^ tap.1) := xor_exchange r r' tap.1 tap.1

theorem foldl_feed_xor (top top' r r' : Nat) (taps : List (Nat × Nat)) :
    taps.foldl (feed (top ^^^ top')) (r ^^^ r') =
      taps.foldl (feed top) r ^^^ taps.foldl (feed top') r' := by
  induction taps generalizing r r' with
  | nil => rfl
  | cons tap taps ih => rw [List.foldl_cons, feed_xor, ih, List.foldl_cons, List.foldl_cons]

theorem step_xor (r r' d d' : Nat) : step (r ^^^ r') (d ^^^ d') = step r d ^^^ step r' d' := by
  rw [step_eq, step_eq, step_eq, ← foldl_feed_xor, Nat.xor_div_two_pow, Nat.xor_mod_two_pow,
    xor_mul_two_pow, xor_exchange]

theorem foldl_feed_lt (top : Nat) {taps : List (Nat × Nat)} (ht : ∀ tap ∈ taps, tap.1 < 2 ^ 30)
    {r : Nat} (hr : r < 2 ^ 30) : taps.foldl (feed top) r < 2 ^ 30 := by
  refine List.foldlRecOn (motive := (· < 2 ^ 30)) taps (feed top) hr fun acc hacc tap hm => ?_
  unfold feed
  split
  · exact Nat.xor_lt_two_pow hacc (ht tap hm)
  · exact hacc

theorem step_lt (r : Nat) {d : Nat} (hd : d < 32) : step r d < 2 ^ 30 := by
  have hlow : r % 2 ^ 25 < 2 ^ 25 := Nat.mod_lt _ (by decide)
  rw [step_eq]
  exact foldl_feed_lt _ (by decide) (Nat.xor_lt_two_pow (by omega) (by omega))

/-- As long as nothing leaves the register, a step just takes in a digit. -/
theorem step_of_small {r d : Nat} (hr : r < 2 ^ 25) (hd : d < 32) : step r d = 32 * r + d := by
  have hfeed : generator.zipIdx.foldl (feed 0) (r * 2 ^ 5 ^^^ d) = r * 2 ^ 5 ^^^ d :=
    List.foldlRecOn (motive := (· = r * 2 ^ 5 ^^^ d)) _ _ rfl fun acc hacc tap _ =>
      (feed_zero acc tap).trans hacc
  rw [step_eq, Nat.div_eq_of_lt hr, Nat.mod_eq_of_lt hr, hfeed]
  exact mul_two_pow_xor r hd

/-! ## Digits one after another -/

/-- What is in the register and what is fed to it act apart from each other. -/
theorem foldl_step_xor (r r' : Nat) (ds : List Nat) :
    ds.foldl step (r ^^^ r') = (List.replicate ds.length 0).foldl step r ^^^ ds.foldl step r' := by
  induction ds generalizing r r' with
  | nil => rfl
  | cons d ds ih =>
    have hd : step (r ^^^ r') d = step r 0 ^^^ step r' d := by
      rw [← step_xor, Nat.zero_xor]
    rw [List.foldl_cons, hd, ih]
    rfl

/-- The six digits of a number bring it into a register that was empty. -/
theorem foldl_step_digits {r : Nat} (hr : r < 2 ^ 30) {n : Nat} (hn : n ≤ 6) :
    ((List.range n).map fun i => r / 32 ^ (5 - i) % 32).foldl step 0 = r / 32 ^ (6 - n) := by
  -- On the digits taken in so far: the register holds those alone, so it never overflows.
  induction n with
  | zero => exact (Nat.div_eq_of_lt hr).symm
  | succ n ih =>
    have hsize : 6 - n = 5 - n + 1 := by omega
    have htail : r / 32 ^ (5 - n) / 32 = r / 32 ^ (6 - n) := by
      rw [hsize, Nat.pow_succ, Nat.div_div_eq_div_mul]
    have hsmall : r / 32 ^ (6 - n) < 2 ^ 25 := by
      have hle : 32 ^ 1 ≤ 32 ^ (6 - n) := Nat.pow_le_pow_right (by decide) (by omega)
      have := Nat.div_le_div_left (a := r) hle (by decide)
      omega
    rw [List.range_succ, List.map_append, List.foldl_append, ih (by omega), List.map_singleton,
      List.foldl_cons, List.foldl_nil, step_of_small hsmall (Nat.mod_lt _ (by decide)), ← htail,
      Nat.div_add_mod, show 6 - (n + 1) = 5 - n by omega]

/-! ## The checksum -/

theorem length_checksum (label : List Char) (digits : List Nat) :
    (checksum label digits).length = 6 := by
  rw [checksum, List.length_map, List.length_range]

theorem checksum_lt {label : List Char} {digits : List Nat} :
    ∀ d ∈ checksum label digits, d < 32 := by
  intro d hd
  obtain ⟨i, -, rfl⟩ := List.mem_map.mp hd
  exact Nat.mod_lt _ (by decide)

/-- Label, data and checksum leave the constant of a valid text. -/
theorem residue_checksum (label : List Char) (digits : List Nat) :
    residue (expand label ++ (digits ++ checksum label digits)) = plainConstant := by
  have hzeros : residue (expand label ++ digits ++ List.replicate 6 0) < 2 ^ 30 := by
    rw [List.replicate_succ', ← List.append_assoc, residue, List.foldl_append]
    exact step_lt _ (by decide)
  have hread : (checksum label digits).foldl step 0 =
      residue (expand label ++ digits ++ List.replicate 6 0) ^^^ plainConstant :=
    (foldl_step_digits (Nat.xor_lt_two_pow hzeros (by decide)) (le_refl 6)).trans (Nat.div_one _)
  -- The checksum meets what label and data left: the zeros for which it was computed act on that,
  -- and its digits as if on an empty register.
  calc residue (expand label ++ (digits ++ checksum label digits))
      = (checksum label digits).foldl step (residue (expand label ++ digits) ^^^ 0) := by
        rw [← List.append_assoc, residue, List.foldl_append, Nat.xor_zero, residue]
    _ = residue (expand label ++ digits ++ List.replicate 6 0) ^^^
        (residue (expand label ++ digits ++ List.replicate 6 0) ^^^ plainConstant) := by
        rw [foldl_step_xor, hread, length_checksum]
        congr 1
        exact List.foldl_append.symm
    _ = plainConstant := by rw [← Nat.xor_assoc, Nat.xor_self, Nat.zero_xor]

end TrieFeed.Bech32
