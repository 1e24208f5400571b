/-!
# Text as bytes

Encoding writes each character in one to four bytes. Decoding is strict: it refuses overlong forms,
surrogates, values past the last code point and cut sequences.
-/
namespace TrieFeed

/-- A string of bytes. -/
abbrev Bytes := List UInt8

namespace Utf8

def encodeChar (c : Char) : Bytes :=
  let n := c.toNat
  if n < 0x80 then [.ofNat n]
  else if n < 0x800 then [.ofNat (0xc0 + n / 64), .ofNat (0x80 + n % 64)]
  else if n < 0x10000 then
    [.ofNat (0xe0 + n / 4096), .ofNat (0x80 + n / 64 % 64), .ofNat (0x80 + n % 64)]
  else
    [.ofNat (0xf0 + n / 262144), .ofNat (0x80 + n / 4096 % 64), .ofNat (0x80 + n / 64 % 64),
      .ofNat (0x80 + n % 64)]

def encode (s : String) : Bytes := s.toList.flatMap encodeChar

/-- The six payload bits of a continuation byte. -/
def continuation? (b : UInt8) : Option Nat :=
  if b.toNat / 64 = 2 then some (b.toNat % 64) else none

/-- The character of a code point, if it is one and needs at least `least`. -/
def char? (least n : Nat) : Option Char :=
  if h : n.isValidChar then if least ≤ n then some ⟨.ofNat n, by
    rcases h with h | ⟨h₁, h₂⟩
    · exact Or.inl (by simp only [UInt32.toNat_ofNat']; omega)
    · exact Or.inr (by simp only [UInt32.toNat_ofNat']; omega)⟩ else none
  else none

def decodeChars? : Bytes → Option (List Char)
  | [] => some []
  | a :: rest =>
    if a.toNat < 0x80 then (char? 0 a.toNat).bind fun c => (decodeChars? rest).map (c :: ·)
    else if a.toNat / 32 = 6 then
      match rest with
      | b :: rest =>
        (continuation? b).bind fun y =>
          (char? 0x80 (a.toNat % 32 * 64 + y)).bind fun c => (decodeChars? rest).map (c :: ·)
      | _ => none
    else if a.toNat / 16 = 14 then
      match rest with
      | b :: d :: rest =>
        (continuation? b).bind fun y => (continuation? d).bind fun z =>
          (char? 0x800 (a.toNat % 16 * 4096 + y * 64 + z)).bind fun c =>
            (decodeChars? rest).map (c :: ·)
      | _ => none
    else if a.toNat / 8 = 30 then
      match rest with
      | b :: d :: e :: rest =>
        (continuation? b).bind fun y => (continuation? d).bind fun z =>
          (continuation? e).bind fun w =>
            (char? 0x10000 (a.toNat % 8 * 262144 + y * 4096 + z * 64 + w)).bind fun c =>
              (decodeChars? rest).map (c :: ·)
      | _ => none
    else none

/-- The text of a byte string, if it is well formed. -/
def decode? (bytes : Bytes) : Option String := (decodeChars? bytes).map .ofList

/-- The length of a text in bytes. -/
def size (s : String) : Nat := (encode s).length

end Utf8

end TrieFeed
