import TrieFeed.Codec.Error
import TrieFeed.Text.Utf8
import TrieFeed.Text.Blank
/-!
# Bech32

A bech32 text is a human-readable label, a separator, five-bit digits and a checksum of six digits.
Writing uses the first checksum constant; reading accepts that one and the one of bech32m.
-/
namespace TrieFeed.Bech32

/-- Why a label cannot stand before the separator. -/
inductive LabelFault where
  | empty
  | tooLong (size : Nat)
  | notAscii (c : Char)
  | outOfRange (c : Char)
  | mixedCase
deriving DecidableEq

inductive Fault where
  | label (fault : LabelFault)
  | tooLong
  | malformed
  | checksum
deriving DecidableEq

def LabelFault.message : LabelFault → String
  | .empty => "hrp is empty, must have at least 1 character"
  | .tooLong size => s!"hrp is too long, found {size} characters, must be <= 126"
  | .notAscii c => "found non-ASCII character: " ++ .ofList [c]
  | .outOfRange c =>
    let digits := String.ofList (Nat.toDigits 16 c.toNat)
    s!"byte value is not valid US-ASCII: '{digits}'"
  | .mixedCase => "hrp cannot mix upper and lower case"

def Fault.message : Fault → String
  | .label fault => fault.message
  | .tooLong => "encode error"
  | .malformed => "parsing failed"
  | .checksum => "no valid bech32 or bech32m checksum"

def Fault.toError (fault : Fault) : CodecError := .bech32 fault.message

/-- The longest label in bytes. -/
def maxLabel : Nat := 83

/-- The longest text whose checksum is defined. -/
def maxLength : Nat := 1023

def separator : Char := '1'

/-- The five-bit digits in order of value. -/
def alphabet : List Char := "qpzry9x8gf2tvdw0s3jn54khce6mua7l".toList

def digitChar (n : Nat) : Char := alphabet.getD n 'q'

/-- The value of a digit of either case. -/
def digitValue? (c : Char) : Option Nat := alphabet.idxOf? c.toLower

def checkChars : List Char → (hasLower hasUpper : Bool) → Option LabelFault
  | [], _, _ => none
  | c :: cs, hasLower, hasUpper =>
    if 127 < c.toNat then some (.notAscii c)
    else if c.toNat < 33 ∨ 126 < c.toNat then some (.outOfRange c)
    else if c.isLower then
      if hasUpper then some .mixedCase else checkChars cs true hasUpper
    else if c.isUpper then
      if hasLower then some .mixedCase else checkChars cs hasLower true
    else checkChars cs hasLower hasUpper

/-- The first fault of a label, if it has one. -/
def labelFault? (label : List Char) : Option LabelFault :=
  let size := Utf8.size (.ofList label)
  if label.isEmpty then some .empty
  else if maxLabel < size then some (.tooLong size)
  else checkChars label false false

/-- The big-endian bits of a number. -/
def bits : Nat → Nat → List Bool
  | 0, _ => []
  | width + 1, n => bits width (n / 2) ++ [n % 2 == 1]

def ofBits (bs : List Bool) : Nat := bs.foldl (fun n b => 2 * n + if b then 1 else 0) 0

/-- Cuts bits into full groups; what is left over is shorter than a group. -/
def fullGroups (size : Nat) : Nat → List Bool → List Nat × List Bool
  | 0, bs => ([], bs)
  | fuel + 1, bs =>
    if bs.length < size then ([], bs)
    else
      let (groups, rest) := fullGroups size fuel (bs.drop size)
      (ofBits (bs.take size) :: groups, rest)

/-- Five-bit digits of bytes; the last one is filled up with zeros. -/
def toDigits (bytes : Bytes) : List Nat :=
  let bs := bytes.flatMap fun b => bits 8 b.toNat
  let (groups, rest) := fullGroups 5 bs.length bs
  if rest.isEmpty then groups
  else groups ++ [ofBits (rest ++ List.replicate (5 - rest.length) false)]

/-- The bytes of five-bit digits; bits left over are dropped. -/
def ofDigits (digits : List Nat) : Bytes :=
  let bs := digits.flatMap (bits 5)
  (fullGroups 8 bs.length bs).1.map .ofNat

/-- The generator of the checksum code, one constant for each bit that leaves the register. -/
def generator : List Nat := [0x3b6a57b2, 0x26508e6d, 0x1ea119fa, 0x3d4233dd, 0x2a1462b3]

def step (register digit : Nat) : Nat :=
  let top := register / Nat.pow 2 25
  let shifted := (register % Nat.pow 2 25 * 32) ^^^ digit
  generator.zipIdx.foldl (fun acc (g, i) => if top.testBit i then acc ^^^ g else acc) shifted

def residue (digits : List Nat) : Nat := digits.foldl step 1

/-- The digits that stand for the label in the checksum. -/
def expand (label : List Char) : List Nat :=
  let ns := label.map fun c => c.toLower.toNat
  ns.map (· / 32) ++ 0 :: ns.map (· % 32)

/-- The residue of a valid text. -/
def plainConstant : Nat := 1

def modifiedConstant : Nat := 0x2bc830a3

def checksum (label : List Char) (digits : List Nat) : List Nat :=
  let r := residue (expand label ++ digits ++ List.replicate 6 0) ^^^ plainConstant
  (List.range 6).map fun i => r / Nat.pow 32 (5 - i) % 32

/-- Writes a label in lowercase, the bytes and their checksum. -/
def encode (label : String) (bytes : Bytes) : Except Fault String :=
  let cs := label.toList
  match labelFault? cs with
  | some fault => .error (.label fault)
  | none =>
    let digits := toDigits bytes
    if maxLength < cs.length + 1 + digits.length + 6 then .error .tooLong
    else
      .ok (.ofList (cs.map Char.toLower ++ separator ::
        (digits ++ checksum cs digits).map digitChar))

/-- Cuts at the last separator. -/
def cutLast? (cs : List Char) : Option (List Char × List Char) :=
  (Text.cutAt? separator cs.reverse).map fun (after, before) => (before.reverse, after.reverse)

def mixesCase (cs : List Char) : Bool := cs.any Char.isLower && cs.any Char.isUpper

/-- Whether the checksum digits at the end fit label and data. -/
def hasChecksum (length : Nat) (label : List Char) (digits : List Nat) : Bool :=
  let r := residue (expand label ++ digits)
  length ≤ maxLength && 6 ≤ digits.length && (r == plainConstant || r == modifiedConstant)

/-- The label as written, and the bytes. -/
def decode (text : String) : Except Fault (String × Bytes) :=
  let cs := (Text.trimmed text).toList
  match cutLast? cs with
  | none => .error .malformed
  | some (label, data) =>
    match data.mapM digitValue? with
    | none => .error .malformed
    | some digits =>
      if mixesCase cs ∨ (labelFault? label).isSome then .error .malformed
      else if hasChecksum cs.length label digits then
        .ok (.ofList label, ofDigits (digits.take (digits.length - 6)))
      else .error .checksum

end TrieFeed.Bech32
