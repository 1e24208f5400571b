import Mathlib.Algebra.Group.Nat.Defs
import Mathlib.Data.List.Induction
import TrieFeed.Proofs.Codec.Reader
import TrieFeed.Proofs.Text.Utf8
/-!
# Headers and magnitudes are read back

A header, and the magnitude of a large number, have one form in bytes: reading takes exactly the
forms that are written.
-/
namespace TrieFeed.Cbor

/-! ## Digits to the base 256 -/

theorem length_bigEndian (width n : Nat) : (bigEndian width n).length = width := by
  induction width generalizing n with
  | zero => rfl
  | succ width ih => simp [bigEndian, ih]

theorem ofBigEndian_append (b : Bytes) (digit : UInt8) :
    ofBigEndian (b ++ [digit]) = 256 * ofBigEndian b + digit.toNat := by
  simp [ofBigEndian]

theorem ofBigEndian_bigEndian (width n : Nat) (h : n < 256 ^ width) :
    ofBigEndian (bigEndian width n) = n := by
  induction width generalizing n with
  | zero => simp at h; subst h; rfl
  | succ width ih =>
    have hn : n / 256 < 256 ^ width := by
      rw [Nat.pow_succ] at h
      exact Nat.div_lt_of_lt_mul (by rwa [Nat.mul_comm])
    rw [bigEndian, ofBigEndian_append, ih _ hn, Utf8.toNat_ofNat (by omega)]
    omega

theorem bigEndian_ofBigEndian (b : Bytes) : bigEndian b.length (ofBigEndian b) = b := by
  induction b using List.reverseRecOn with
  | nil => rfl
  | append_singleton b digit ih =>
    have hd := digit.toNat_lt
    rw [List.length_append, List.length_singleton, bigEndian, ofBigEndian_append,
      show (256 * ofBigEndian b + digit.toNat) / 256 = ofBigEndian b by omega, ih,
      Utf8.ofNat_eq (b := digit) (by omega)]

theorem ofBigEndian_lt (b : Bytes) : ofBigEndian b < 256 ^ b.length := by
  induction b using List.reverseRecOn with
  | nil => decide
  | append_singleton b digit ih =>
    have hd := digit.toNat_lt
    rw [List.length_append, List.length_singleton, ofBigEndian_append, Nat.pow_succ]
    omega

theorem take?_append (b rest : Bytes) : take? b.length (b ++ rest) = some (b, rest) := by
  simp [take?]

theorem take?_sound {n : Nat} {bytes b rest : Bytes} (h : take? n bytes = some (b, rest)) :
    b.length = n ∧ bytes = b ++ rest := by
  unfold take? at h
  split at h
  · rename_i hn
    cases h
    exact ⟨List.length_take_of_le hn, (List.take_append_drop n bytes).symm⟩
  · cases h

/-! ## Headers -/

theorem wideArgument?_bigEndian (width : Nat) {least n : Nat} (rest : Bytes) (hl : least ≤ n)
    (hn : n < 256 ^ width) :
    wideArgument? width least (bigEndian width n ++ rest) = some (n, rest) := by
  have ht := take?_append (bigEndian width n) rest
  rw [length_bigEndian] at ht
  rw [wideArgument?, ht, Option.bind_some]
  simp only [ofBigEndian_bigEndian width n hn, hl, if_pos]

theorem wideArgument?_sound {width least n : Nat} {bytes rest : Bytes}
    (h : wideArgument? width least bytes = some (n, rest)) :
    bytes = bigEndian width n ++ rest ∧ least ≤ n ∧ n < 256 ^ width := by
  obtain ⟨⟨digits, after⟩, ht, hn⟩ := Option.bind_eq_some_iff.mp h
  obtain ⟨rfl, rfl⟩ := take?_sound ht
  by_cases hl : least ≤ ofBigEndian digits
  · simp only [hl, if_pos, Option.some.injEq, Prod.mk.injEq] at hn
    obtain ⟨rfl, rfl⟩ := hn
    exact ⟨by rw [bigEndian_ofBigEndian], hl, ofBigEndian_lt digits⟩
  · simp [hl] at hn

section

variable {major n : Nat}

theorem header_short (h : n < 24) : header major n = [.ofNat (32 * major + n)] := if_pos h

theorem header_one (hl : 24 ≤ n) (hn : n < Nat.pow 2 8) :
    header major n = .ofNat (32 * major + 24) :: bigEndian 1 n := by
  rw [header, if_neg (Nat.not_lt.mpr hl), if_pos hn]

theorem header_two (hl : Nat.pow 2 8 ≤ n) (hn : n < Nat.pow 2 16) :
    header major n = .ofNat (32 * major + 25) :: bigEndian 2 n := by
  rw [header, if_neg (Nat.not_lt.mpr (Nat.le_trans (by decide) hl)),
    if_neg (Nat.not_lt.mpr hl), if_pos hn]

theorem header_four (hl : Nat.pow 2 16 ≤ n) (hn : n < Nat.pow 2 32) :
    header major n = .ofNat (32 * major + 26) :: bigEndian 4 n := by
  rw [header, if_neg (Nat.not_lt.mpr (Nat.le_trans (by decide) hl)),
    if_neg (Nat.not_lt.mpr (Nat.le_trans (by decide) hl)), if_neg (Nat.not_lt.mpr hl), if_pos hn]

theorem header_eight (hl : Nat.pow 2 32 ≤ n) :
    header major n = .ofNat (32 * major + 27) :: bigEndian 8 n := by
  rw [header, if_neg (Nat.not_lt.mpr (Nat.le_trans (by decide) hl)),
    if_neg (Nat.not_lt.mpr (Nat.le_trans (by decide) hl)),
    if_neg (Nat.not_lt.mpr (Nat.le_trans (by decide) hl)), if_neg (Nat.not_lt.mpr hl)]

end

theorem header_pos (major n : Nat) : 0 < (header major n).length := by
  unfold header
  repeat' split
  all_goals simp

theorem header?_cons {major low : Nat} (rest : Bytes) (hm : major < 8) (hl : low < 32) :
    header? (.ofNat (32 * major + low) :: rest) =
      (argument? low rest).map fun (n, rest) => ((major, n), rest) := by
  rw [header?, Utf8.toNat_ofNat (by omega), show (32 * major + low) % 32 = low by omega,
    show (32 * major + low) / 32 = major by omega]

theorem argument?_low {low : Nat} (bytes : Bytes) (h : low < 24) :
    argument? low bytes = some (low, bytes) := by
  unfold argument?
  exact if_pos h

theorem header?_header {major n : Nat} (rest : Bytes) (hm : major < 8) (hn : n < Nat.pow 2 64) :
    header? (header major n ++ rest) = some ((major, n), rest) := by
  by_cases h : n < 24
  · rw [header_short h, List.singleton_append, header?_cons rest hm (by omega),
      argument?_low rest h]
    rfl
  by_cases h₁ : n < Nat.pow 2 8
  · rw [header_one (Nat.not_lt.mp h) h₁, List.cons_append, header?_cons _ hm (by omega)]
    simp [argument?, wideArgument?_bigEndian 1 rest (Nat.not_lt.mp h) h₁]
  by_cases h₂ : n < Nat.pow 2 16
  · rw [header_two (Nat.not_lt.mp h₁) h₂, List.cons_append, header?_cons _ hm (by omega)]
    simp [argument?, wideArgument?_bigEndian 2 rest (Nat.not_lt.mp h₁) h₂]
  by_cases h₃ : n < Nat.pow 2 32
  · rw [header_four (Nat.not_lt.mp h₂) h₃, List.cons_append, header?_cons _ hm (by omega)]
    simp [argument?, wideArgument?_bigEndian 4 rest (Nat.not_lt.mp h₂) h₃]
  · rw [header_eight (Nat.not_lt.mp h₃), List.cons_append, header?_cons _ hm (by omega)]
    simp [argument?, wideArgument?_bigEndian 8 rest (Nat.not_lt.mp h₃) hn]

/-- A header that is read was written in its only form. -/
theorem header?_sound {bytes rest : Bytes} {major n : Nat}
    (h : header? bytes = some ((major, n), rest)) :
    bytes = header major n ++ rest ∧ major < 8 ∧ n < Nat.pow 2 64 := by
  cases bytes with
  | nil => cases h
  | cons initial tail =>
    obtain ⟨⟨k, after⟩, ha, hk⟩ := Option.map_eq_some_iff.mp h
    simp only [Prod.mk.injEq] at hk
    obtain ⟨⟨rfl, rfl⟩, rfl⟩ := hk
    have hb := initial.toNat_lt
    have initial_eq : ∀ low, initial.toNat % 32 = low →
        UInt8.ofNat (32 * (initial.toNat / 32) + low) = initial := fun low hl =>
      Utf8.ofNat_eq (by omega)
    unfold argument? at ha
    split at ha
    · rename_i hl
      cases ha
      rw [header_short hl, initial_eq _ rfl]
      exact ⟨rfl, by omega, Nat.lt_trans hl (by decide)⟩
    · split at ha
      · rename_i hl
        obtain ⟨rfl, hlow, hn⟩ := wideArgument?_sound ha
        rw [header_one hlow hn, initial_eq _ hl]
        exact ⟨rfl, by omega, Nat.lt_trans hn (by decide)⟩
      · rename_i hl
        obtain ⟨rfl, hlow, hn⟩ := wideArgument?_sound ha
        rw [header_two hlow hn, initial_eq _ hl]
        exact ⟨rfl, by omega, Nat.lt_trans hn (by decide)⟩
      · rename_i hl
        obtain ⟨rfl, hlow, hn⟩ := wideArgument?_sound ha
        rw [header_four hlow hn, initial_eq _ hl]
        exact ⟨rfl, by omega, Nat.lt_trans hn (by decide)⟩
      · rename_i hl
        obtain ⟨rfl, hlow, hn⟩ := wideArgument?_sound ha
        rw [header_eight hlow, initial_eq _ hl]
        exact ⟨rfl, by omega, hn⟩
      · cases ha

/-! ## Magnitudes -/

theorem ofBigEndian_cons (digit : UInt8) (b : Bytes) :
    ofBigEndian (digit :: b) = digit.toNat * 256 ^ b.length + ofBigEndian b := by
  induction b using List.reverseRecOn with
  | nil => simp [ofBigEndian]
  | append_singleton b last ih =>
    rw [← List.cons_append, ofBigEndian_append, ofBigEndian_append, ih, List.length_append,
      List.length_singleton, Nat.pow_succ]
    rw [Nat.mul_add, Nat.add_assoc, ← Nat.mul_assoc, ← Nat.mul_assoc, Nat.mul_comm 256 _,
      Nat.mul_assoc _ 256, Nat.mul_comm 256 (256 ^ _), Nat.mul_assoc]

theorem width_of_bounds {k n : Nat} (hl : 256 ^ k ≤ n) (hn : n < 256 ^ (k + 1)) :
    width n = k + 1 := by
  have h₀ : n ≠ 0 := fun h => by
    rw [h] at hl
    exact absurd (Nat.pow_pos (n := k) (show 0 < 256 by decide)) (Nat.not_lt.mpr hl)
  have hp : ∀ j, 256 ^ j = 2 ^ (8 * j) := fun j => by rw [Nat.pow_mul]
  rw [hp] at hl hn
  have hlow : 8 * k ≤ n.log2 := (Nat.le_log2 h₀).mpr hl
  have hhigh : n.log2 < 8 * (k + 1) := (Nat.log2_lt h₀).mpr hn
  rw [width, if_neg h₀]
  omega

theorem lt_pow_width (n : Nat) : n < 256 ^ width n := by
  by_cases h₀ : n = 0
  · subst h₀; decide
  · have hp : 256 ^ width n = 2 ^ (8 * width n) := by rw [Nat.pow_mul]
    rw [hp, ← Nat.log2_lt h₀, width, if_neg h₀]
    omega

theorem width_le {k n : Nat} (hn : n < 256 ^ k) : width n ≤ k := by
  by_cases h₀ : n = 0
  · subst h₀; exact Nat.zero_le k
  · have hp : 256 ^ k = 2 ^ (8 * k) := by rw [Nat.pow_mul]
    rw [hp, ← Nat.log2_lt h₀] at hn
    rw [width, if_neg h₀]
    omega

/-- A magnitude has no leading zero. -/
theorem head?_magnitude {n : Nat} : (magnitude n).head? ≠ some 0 := by
  intro h
  obtain ⟨rest, hr⟩ : ∃ rest, magnitude n = 0 :: rest := by
    cases hm : magnitude n with
    | nil => rw [hm] at h; cases h
    | cons digit rest => rw [hm] at h; cases h; exact ⟨rest, rfl⟩
  have hl : rest.length + 1 = width n := by
    rw [← length_bigEndian (width n) n, ← magnitude, hr, List.length_cons]
  have hn : n < 256 ^ rest.length := by
    have hv := ofBigEndian_bigEndian (width n) n (lt_pow_width n)
    rw [← magnitude, hr, ofBigEndian_cons] at hv
    have := ofBigEndian_lt rest
    simp only [UInt8.toNat_zero, Nat.zero_mul, Nat.zero_add] at hv
    omega
  have := width_le hn
  omega

/-- Digits without a leading zero are the magnitude of their value. -/
theorem magnitude_ofBigEndian {digits : Bytes} (h : digits.head? ≠ some 0) :
    magnitude (ofBigEndian digits) = digits := by
  cases digits with
  | nil => rfl
  | cons digit rest =>
    have hd : 1 ≤ digit.toNat := by
      rcases Nat.eq_zero_or_pos digit.toNat with h₀ | h₀
      · exact absurd (congrArg some (UInt8.toNat_inj.mp h₀)) h
      · exact h₀
    have hl : 256 ^ rest.length ≤ ofBigEndian (digit :: rest) := by
      rw [ofBigEndian_cons]
      exact Nat.le_trans (Nat.le_mul_of_pos_left _ hd) (Nat.le_add_right _ _)
    have hw : width (ofBigEndian (digit :: rest)) = (digit :: rest).length :=
      width_of_bounds hl (ofBigEndian_lt (digit :: rest))
    rw [magnitude, hw, bigEndian_ofBigEndian]

theorem magnitude?_byteString {n : Nat} (rest : Bytes) (hn : Nat.pow 2 64 ≤ n)
    (hw : width n < Nat.pow 2 64) :
    magnitude? (byteString (magnitude n) ++ rest) = some (n, rest) := by
  have hl : (magnitude n).length < Nat.pow 2 64 := by rwa [magnitude, length_bigEndian]
  have hv : ofBigEndian (magnitude n) = n := ofBigEndian_bigEndian _ n (lt_pow_width n)
  rw [magnitude?, byteString, List.append_assoc, header?_header _ (by decide) hl]
  simp only [take?_append, Option.bind_some, hv, head?_magnitude, Nat.not_lt.mpr hn, or_self,
    if_false]

theorem magnitude?_sound {bytes rest : Bytes} {n : Nat} (h : magnitude? bytes = some (n, rest)) :
    bytes = byteString (magnitude n) ++ rest ∧ Nat.pow 2 64 ≤ n := by
  unfold magnitude? at h
  split at h
  · rename_i hh
    obtain ⟨⟨digits, after⟩, ht, hd⟩ := Option.bind_eq_some_iff.mp h
    obtain ⟨rfl, rfl⟩ := take?_sound ht
    obtain ⟨rfl, -, -⟩ := header?_sound hh
    by_cases hb : digits.head? = some 0 ∨ ofBigEndian digits < Nat.pow 2 64
    · simp only [hb, if_pos, reduceCtorEq] at hd
    · simp only [hb, if_false, Option.some.injEq, Prod.mk.injEq] at hd
      obtain ⟨rfl, rfl⟩ := hd
      rw [not_or, Nat.not_lt] at hb
      rw [magnitude_ofBigEndian hb.1, byteString, List.append_assoc]
      exact ⟨rfl, hb.2⟩
  · cases h

end TrieFeed.Cbor
