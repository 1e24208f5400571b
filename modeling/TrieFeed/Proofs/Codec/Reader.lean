import TrieFeed.Codec.Cbor
/-!
# A strict reader of binary items

The reader takes definite lengths only and knows nothing of how items are written. It refuses an
argument that a shorter header could hold, and a tagged number with a leading zero byte or with a
value that a header of its own could hold.
-/
namespace TrieFeed.Cbor

def ofBigEndian (b : Bytes) : Nat := b.foldl (fun n byte => 256 * n + byte.toNat) 0

/-- The first `n` bytes, if there are as many. -/
def take? (n : Nat) (bytes : Bytes) : Option (Bytes × Bytes) :=
  if n ≤ bytes.length then some (bytes.take n, bytes.drop n) else none

/-- An argument of so many bytes, which has to be at least `least`. -/
def wideArgument? (width least : Nat) (bytes : Bytes) : Option (Nat × Bytes) :=
  (take? width bytes).bind fun (digits, rest) =>
    if least ≤ ofBigEndian digits then some (ofBigEndian digits, rest) else none

/-- The argument that the low bits of an initial byte stand for. -/
def argument? (low : Nat) (bytes : Bytes) : Option (Nat × Bytes) :=
  if low < 24 then some (low, bytes)
  else match low with
    | 24 => wideArgument? 1 24 bytes
    | 25 => wideArgument? 2 (Nat.pow 2 8) bytes
    | 26 => wideArgument? 4 (Nat.pow 2 16) bytes
    | 27 => wideArgument? 8 (Nat.pow 2 32) bytes
    | _ => none

/-- The major type and the argument. -/
def header? : Bytes → Option ((Nat × Nat) × Bytes)
  | [] => none
  | initial :: rest =>
    (argument? (initial.toNat % 32) rest).map fun (n, rest) => ((initial.toNat / 32, n), rest)

/-- The magnitude of a tagged number. -/
def magnitude? (bytes : Bytes) : Option (Nat × Bytes) :=
  match header? bytes with
  | some ((2, length), rest) =>
    (take? length rest).bind fun (digits, rest) =>
      if digits.head? = some 0 ∨ ofBigEndian digits < Nat.pow 2 64 then none
      else some (ofBigEndian digits, rest)
  | _ => none

def tagged? (tag : Nat) (bytes : Bytes) : Option (Item × Bytes) :=
  match tag with
  | 2 => (magnitude? bytes).map fun (n, rest) => (.int (.ofNat n), rest)
  | 3 => (magnitude? bytes).map fun (n, rest) => (.int (.negSucc n), rest)
  | _ => none

def simple? : Nat → Option Item
  | 20 => some (.bool false)
  | 21 => some (.bool true)
  | 22 => some .null
  | _ => none

section

variable {α : Type} (read : Bytes → Option (α × Bytes))

def pair? (bytes : Bytes) : Option ((α × α) × Bytes) :=
  (read bytes).bind fun (key, rest) => (read rest).map fun (value, rest) => ((key, value), rest)

/-- As many as are announced, one after the other. -/
def many? : Nat → Bytes → Option (List α × Bytes)
  | 0, bytes => some ([], bytes)
  | n + 1, bytes =>
    (read bytes).bind fun (a, rest) => (many? n rest).map fun (as, rest) => (a :: as, rest)

end

/-- What follows a header, when items are read by `read`. -/
def body? (read : Bytes → Option (Item × Bytes)) (major n : Nat) (bytes : Bytes) :
    Option (Item × Bytes) :=
  match major with
  | 0 => some (.int (.ofNat n), bytes)
  | 1 => some (.int (.negSucc n), bytes)
  | 2 => (take? n bytes).map fun (b, rest) => (.bytes b, rest)
  | 3 => (take? n bytes).bind fun (b, rest) => (Utf8.decode? b).map fun s => (.text s, rest)
  | 4 => (many? read n bytes).map fun (items, rest) => (.list items, rest)
  | 5 => (many? (pair? read) n bytes).map fun (entries, rest) => (.map entries, rest)
  | 6 => tagged? n bytes
  | _ => (simple? n).map fun item => (item, bytes)

/-- The item at the start, of at most so many levels. -/
def item? : Nat → Bytes → Option (Item × Bytes)
  | 0, _ => none
  | levels + 1, bytes =>
    (header? bytes).bind fun ((major, n), rest) => body? (item? levels) major n rest

/-- The item at the start and what comes after it. Every level takes a byte at least, so items
cannot have more levels than there are bytes. -/
def read? (bytes : Bytes) : Option (Item × Bytes) := item? bytes.length bytes

end TrieFeed.Cbor
