import TrieFeed.Number.Numeral
import TrieFeed.Text.Lines
import TrieFeed.Web.Percent
/-!
# Host names

Which texts name a host: a domain without forbidden characters, an address of four numbers, or an
address of eight groups between brackets.
-/
namespace TrieFeed.Web

def forbiddenInHosts : List Char :=
  ['\x00', '\t', '\n', '\r', ' ', '#', '/', ':', '<', '>', '?', '@', '[', '\\', ']', '^', '|']

/-- Whether a character may stand in a domain. -/
def inDomain (c : Char) : Bool :=
  0x20 < c.toNat && c.toNat ≠ 0x7f && c ≠ '%' && !forbiddenInHosts.contains c

/-- A number of an address: decimal, or octal after a zero, or hexadecimal after its mark. Texts
that are none of these are not numbers at all. -/
def addressNumber? (cs : List Char) : Option Nat :=
  let read (base : Nat) (digits : List Char) : Option Nat :=
    digits.foldl (fun acc c => match acc, hexValue? c with
      | some n, some d => if d < base then some (n * base + d) else none
      | _, _ => none) (some 0)
  match cs with
  | [] => none
  | '0' :: 'x' :: rest => read 16 rest
  | '0' :: 'X' :: rest => read 16 rest
  | '0' :: c :: rest => read 8 (c :: rest)
  | _ => read 10 cs

/-- The labels of a domain without the empty one that a last point leaves. -/
def labelsOf (domain : List Char) : List (List Char) :=
  let labels := Text.splitOn '.' domain
  if labels.length > 1 ∧ labels.getLast? = some [] then labels.dropLast else labels

/-- Domains whose last label is a number have to be addresses. -/
def endsInNumber (domain : List Char) : Bool :=
  match (labelsOf domain).getLast? with
  | some label =>
    (!label.isEmpty && label.all Numeral.isDigit) || (addressNumber? label).isSome
  | none => false

/-- An address of at most four numbers, the last of which fills the bytes that are left. -/
def isAddress4 (domain : List Char) : Bool :=
  let numbers := (labelsOf domain).map addressNumber?
  match numbers.reverse with
  | some last :: before =>
    before.length < 4 && before.all (fun n => n.any (· ≤ 255)) &&
      last < Nat.pow 256 (4 - before.length)
  | _ => false

def isGroup (cs : List Char) : Bool :=
  0 < cs.length && cs.length ≤ 4 && cs.all fun c => (hexValue? c).isSome

def isByteNumeral (cs : List Char) : Bool :=
  0 < cs.length && cs.length ≤ 3 && cs.all Numeral.isDigit && Numeral.ofDigits cs ≤ 255
    && (cs.length = 1 || cs.head? ≠ some '0')

/-- How many groups of sixteen bits these are; an address of four bytes counts twice at the end. -/
def groupCount? : List (List Char) → Option Nat
  | [] => some 0
  | [last] =>
    if isGroup last then some 1
    else
      let bytes := Text.splitOn '.' last
      if bytes.length = 4 ∧ bytes.all isByteNumeral then some 2 else none
  | group :: rest => if isGroup group then (groupCount? rest).map (· + 1) else none

def groupsOf (cs : List Char) : List (List Char) :=
  if cs.isEmpty then [] else Text.splitOn ':' cs

/-- Eight groups, or fewer around one gap. -/
def isAddress6 (cs : List Char) : Bool :=
  match Text.splitBy [':', ':'] cs with
  | [whole] => groupCount? (groupsOf whole) = some 8
  | [front, back] =>
    match groupCount? (groupsOf front), groupCount? (groupsOf back) with
    | some a, some b => a + b < 8 && !front.contains '.'
    | _, _ => false
  | _ => false

/-- Characters that say nothing in a domain. -/
def isSilent (c : Char) : Bool :=
  [0xad, 0x34f, 0x200b, 0x2060, 0xfeff].contains c.toNat || (0xfe00 ≤ c.toNat && c.toNat ≤ 0xfe0f)

/-- The narrow form of a wide character, and the point for other points. -/
def narrowed (c : Char) : Char :=
  if 0xff01 ≤ c.toNat ∧ c.toNat ≤ 0xff5e then .ofNat (c.toNat - 0xfee0)
  else if c.toNat = 0x3002 ∨ c.toNat = 0xff61 then '.'
  else c

/-- A domain as it is judged. -/
def plainDomain (domain : List Char) : List Char :=
  (domain.filter fun c => !isSilent c).map narrowed

/-- Whether the text between the brackets, or else the whole text, names a host. Hosts of schemes
that do not know domains are any text without forbidden characters. -/
def isHost (knowsDomains : Bool) (cs : List Char) : Bool :=
  match cs with
  | '[' :: rest => rest.getLast? = some ']' && isAddress6 rest.dropLast
  | _ =>
    if knowsDomains then
      match percentDecode? cs with
      | none => false
      | some domain =>
        let domain := plainDomain domain.toList
        !domain.isEmpty && domain.all inDomain && (!endsInNumber domain || isAddress4 domain)
    else cs.all fun c => !forbiddenInHosts.contains c

end TrieFeed.Web
