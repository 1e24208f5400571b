import TrieFeed.Codec.Error
import TrieFeed.Text.Blank
import TrieFeed.Text.Quoted
import TrieFeed.Text.Utf8
/-!
# Hexadecimal text

Bytes are written with two lowercase digits each. Reading takes either case, trims blanks and drops
one leading `0x`. An odd length is reported before any character that is not a digit.
-/
namespace TrieFeed.Hex

/-- Why a text is not hexadecimal. Positions count bytes. -/
inductive Fault where
  | oddLength
  | notDigit (byte : UInt8) (offset : Nat)
deriving DecidableEq

def Fault.message : Fault → String
  | .oddLength => "odd length"
  | .notDigit byte offset =>
    let shown := Text.quotedLetter (.ofNat byte.toNat)
    s!"non-hex character {shown} at offset {offset}"

def Fault.toError (fault : Fault) : CodecError := .invalidHex fault.message

def digit (n : Nat) : Char := if n < 10 then .ofNat (48 + n) else .ofNat (87 + n)

def encode (bytes : Bytes) : String :=
  .ofList (bytes.flatMap fun b => [digit (b.toNat / 16), digit (b.toNat % 16)])

/-- The value of one digit of either case, given as its byte. -/
def value? (b : UInt8) : Option Nat :=
  let n := b.toNat
  if 48 ≤ n ∧ n ≤ 57 then some (n - 48)
  else if 97 ≤ n ∧ n ≤ 102 then some (n - 87)
  else if 65 ≤ n ∧ n ≤ 70 then some (n - 55)
  else none

/-- Reads digits in pairs; `offset` is the position of the first. -/
def pairs (offset : Nat) : Bytes → Except Fault Bytes
  | [] => .ok []
  | [_] => .error .oddLength
  | high :: low :: rest =>
    match value? high, value? low with
    | some h, some l =>
      match pairs (offset + 2) rest with
      | .ok bytes => .ok (.ofNat (16 * h + l) :: bytes)
      | .error fault => .error fault
    | none, _ => .error (.notDigit high offset)
    | some _, none => .error (.notDigit low (offset + 1))

/-- Drops one leading `0x` or `0X`. -/
def dropMark : Bytes → Bytes
  | 48 :: 120 :: rest => rest
  | 48 :: 88 :: rest => rest
  | bytes => bytes

/-- The bytes of the digits of a text. -/
def digits (s : String) : Bytes := dropMark (Utf8.encode (Text.trimmed s))

def decode (s : String) : Except Fault Bytes :=
  let ds := digits s
  if ds.length % 2 = 1 then .error .oddLength else pairs 0 ds

/-- Whether a text writes at least one byte. -/
def isValid (s : String) : Bool :=
  !(digits s).isEmpty && (decode s).isOk

end TrieFeed.Hex
