import TrieFeed.Chain.Bech32
import TrieFeed.Codec.Hex
/-!
# Chain addresses

An address is bytes whose first byte names its kind in the high half. Payment and delegation
credentials are hashes of twenty-eight bytes at places the kind fixes.
-/
namespace TrieFeed

namespace Address

inductive Kind where
  | base
  | pointer
  | enterprise
  | reward
deriving DecidableEq

def Kind.name : Kind → String
  | .base => "Base"
  | .pointer => "Pointer"
  | .enterprise => "Enterprise"
  | .reward => "Reward"

/-- The length of a credential. -/
def credentialSize : Nat := 28

/-- The least length of an address of a kind: header, credentials, and at least three bytes of a
pointer. -/
def Kind.minSize : Kind → Nat
  | .base => 1 + 2 * credentialSize
  | .pointer => 1 + credentialSize + 3
  | .enterprise | .reward => 1 + credentialSize

/-- The label of the main network; the test network's adds `_test`. -/
def Kind.label : Kind → String
  | .reward => "stake"
  | _ => "addr"

/-- Why bytes or a text are no address of the wanted sort. -/
inductive Fault where
  | empty
  | byron
  | unknownType (number : Nat)
  | tooShort (kind : Kind) (size : Nat)
  | wrongLabel (label : String) (kind : Kind)
  | noDelegation (kind : Kind)
  | noPayment
  | wrongPoolLabel (label : String)
  | wrongPoolSize (size : Nat)
deriving DecidableEq

def Fault.message : Fault → String
  | .empty => "empty address payload"
  | .byron => "byron addresses are not bech32 encoded"
  | .unknownType number => s!"unknown address type {number}"
  | .tooShort kind size =>
    s!"{kind.name} address needs at least {kind.minSize} bytes, got {size}"
  | .wrongLabel label kind =>
    let shown := Text.quoted label
    s!"prefix {shown} does not match a {kind.name} address"
  | .noDelegation kind => s!"{kind.name} address carries no delegation credential"
  | .noPayment => "stake addresses carry no payment credential"
  | .wrongPoolLabel label =>
    let shown := Text.quoted label
    s!"unexpected pool prefix {shown}"
  | .wrongPoolSize size => s!"pool key hash must be {credentialSize} bytes, got {size}"

def Fault.toError (fault : Fault) : CodecError := .invalidAddress fault.message

/-- The kind that the high half of the header names. -/
def Kind.ofHeader (header : UInt8) : Except Fault Kind :=
  match header.toNat / 16 with
  | 0 | 1 | 2 | 3 => .ok .base
  | 4 | 5 => .ok .pointer
  | 6 | 7 => .ok .enterprise
  | 14 | 15 => .ok .reward
  | 8 => .error .byron
  | other => .error (.unknownType other)

/-- The kind of an address, which also must be long enough for it. -/
def classify : Bytes → Except Fault Kind
  | [] => .error .empty
  | header :: rest =>
    match Kind.ofHeader header with
    | .error fault => .error fault
    | .ok kind =>
      if rest.length + 1 < kind.minSize then .error (.tooShort kind (rest.length + 1))
      else .ok kind

/-- The kind and the bytes of an address text whose label suits its kind. -/
def read (text : String) : Except CodecError (Kind × Bytes) :=
  match Bech32.decode text with
  | .error fault => .error fault.toError
  | .ok (label, bytes) =>
    match classify bytes with
    | .error fault => .error fault.toError
    | .ok kind =>
      if label = kind.label ∨ label = kind.label ++ "_test" then .ok (kind, bytes)
      else .error (Fault.wrongLabel label kind).toError

def toBytes (text : String) : Except CodecError Bytes := (read text).map (·.2)

/-- The credential at a place counted in credentials after the header. -/
def credentialAt (place : Nat) (bytes : Bytes) : Bytes :=
  (bytes.drop (1 + place * credentialSize)).take credentialSize

/-- The credential that a stake address, or the second part of a base address, delegates with. -/
def delegationCredential (text : String) : Except CodecError Bytes :=
  match read text with
  | .error e => .error e
  | .ok (.reward, bytes) => .ok (credentialAt 0 bytes)
  | .ok (.base, bytes) => .ok (credentialAt 1 bytes)
  | .ok (kind, _) => .error (Fault.noDelegation kind).toError

def paymentCredential (text : String) : Except CodecError Bytes :=
  match read text with
  | .error e => .error e
  | .ok (.reward, _) => .error Fault.noPayment.toError
  | .ok (_, bytes) => .ok (credentialAt 0 bytes)

/-- The bytes of a pool identifier: bech32 where it starts with `pool`, else hexadecimal. -/
def poolBytes (text : String) : Except CodecError Bytes :=
  let text := Text.trimmed text
  if (Text.after? "pool".toList text.toList).isSome then
    match Bech32.decode text with
    | .error fault => .error fault.toError
    | .ok (label, bytes) =>
      if label = "pool" then .ok bytes else .error (Fault.wrongPoolLabel label).toError
  else (Hex.decode text).mapError Hex.Fault.toError

/-- The key hash of a stake pool. -/
def poolKeyHash (text : String) : Except CodecError Bytes :=
  match poolBytes text with
  | .error e => .error e
  | .ok bytes =>
    if bytes.length = credentialSize then .ok bytes
    else .error (Fault.wrongPoolSize bytes.length).toError

end Address

end TrieFeed
