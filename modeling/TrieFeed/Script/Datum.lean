import TrieFeed.Json.Printer
import TrieFeed.Json.Reader
import TrieFeed.Text.Utf8
import TrieFeed.Value.Basic
/-!
# Script data

The values that scripts compute with. A datum never changes, so it is a tree; the one datum that
holds itself is a case of its own.
-/
namespace TrieFeed.Script

inductive Datum where
  | undefined
  | null
  | bool (b : Bool)
  | number (x : Binary64)
  | wide (n : Int)
  | text (s : String)
  | symbol
  | bytes (b : Bytes)
  | buffer (b : Bytes)
  /-- A view of numbers that are not bytes, though each of these would fit in one. -/
  | units (b : Bytes)
  /-- A place of a list that was never written. -/
  | gap
  | list (items : List Datum)
  /-- Fields that are listed, and fields that can only be read. -/
  | record (fields hidden : List (String × Datum))
  | function
  | newable
  | error (message : String)
  | settled (d : Datum)
  | failed (reason : Datum)
  | pending
  | boxed (d : Datum)
  /-- A record whose one field is the record itself. -/
  | endless
deriving Inhabited

namespace Datum

def ofInt (n : Int) : Datum := .number (.ofInt n)

/-- Names of places in a list: numbers below the largest word, as they are printed. -/
def index? (name : String) : Option Nat :=
  match Numeral.natural? name.toList with
  | some n => if n < Nat.pow 2 32 - 1 ∧ toString n = name then some n else none
  | none => none

/-- Fields in the order in which scripts list them: numbered names first, by number. -/
def listed {α : Type} (fields : List (String × α)) : List (String × α) :=
  let numbered := fields.filterMap fun f => (index? f.1).map fun i => (i, f)
  (numbered.mergeSort fun a b => a.1 ≤ b.1).map (·.2)
    ++ fields.filter fun f => (index? f.1).isNone

def indexed {α : Type} (items : List α) : List (String × α) :=
  items.mapIdx fun i a => (toString i, a)

def bytesFields (b : Bytes) : List (String × Datum) := indexed (b.map fun n => ofInt n.toNat)

/-- The listed fields of data that are neither lists nor bytes. -/
def fields : Datum → List (String × Datum)
  | .record fields _ => listed fields
  | .units b => bytesFields b
  | .boxed (.text s) => indexed (s.toList.map fun c => .text c.toString)
  | .endless => [("self", .endless)]
  | _ => []

/-- The word for the kind of a datum. -/
def kind : Datum → String
  | .undefined | .gap => "undefined"
  | .bool _ => "boolean"
  | .number _ => "number"
  | .wide _ => "bigint"
  | .text _ => "string"
  | .symbol => "symbol"
  | .function | .newable => "function"
  | _ => "object"

def isFunction : Datum → Bool
  | .function | .newable => true
  | _ => false

/-- Whether a datum counts as true. -/
def truth : Datum → Bool
  | .undefined | .gap | .null => false
  | .bool b => b
  | .number x => !(x.isNaN || x.integral? == some 0)
  | .wide n => n != 0
  | .text s => !s.isEmpty
  | _ => true

/-- The length of a text in units of sixteen bits. -/
def textSize (s : String) : Nat :=
  s.toList.foldl (fun n c => if c.toNat < 0x10000 then n + 1 else n + 2) 0

def size? : Datum → Option Nat
  | .text s => some (textSize s)
  | .boxed (.text s) => some (textSize s)
  | .list items => some items.length
  | .bytes b => some b.length
  | .units b => some b.length
  | .function | .newable => some 0
  | _ => none

/-- The datum under a name; what is not there is undefined. -/
def get (name : String) (d : Datum) : Datum :=
  if name = "length" ∧ (size? d).isSome then ofInt ((size? d).getD 0)
  else
    let found : Option Datum := match d with
      | .list items => (index? name).bind (items[·]?)
      | .bytes b => Fields.get? name (bytesFields b)
      | .text s => (index? name).bind fun i => (s.toList[i]?).map fun c => .text c.toString
      | .error message => if name = "message" then some (.text message) else none
      | .record fields hidden => (Fields.get? name fields).or (Fields.get? name hidden)
      | _ => Fields.get? name d.fields
    match found with
    | some .gap => .undefined
    | some d => d
    | none => .undefined

mutual

/-- A datum as text, if it has one. -/
def text? : Datum → Option String
  | .undefined | .gap => some "undefined"
  | .null => some "null"
  | .bool b => some (if b then "true" else "false")
  | .number x => some (Shortest.Layout.script.write x)
  | .wide n => some (toString n)
  | .text s => some s
  | .symbol => none
  | .bytes b | .units b => some (",".intercalate (b.map fun n => toString n.toNat))
  | .list items => (texts? items).map (",".intercalate ·)
  | .error message => some (if message.isEmpty then "Error" else "Error: " ++ message)
  | .boxed d => text? d
  | .settled _ | .failed _ | .pending => some "[object Promise]"
  | .buffer _ => some "[object ArrayBuffer]"
  | .function => some "function () \x7b\x7d"
  | .newable => some "class \x7b\x7d"
  | .record _ _ | .endless => some "[object Object]"

/-- The texts of items, of which absent ones have empty texts. -/
def texts? : List Datum → Option (List String)
  | [] => some []
  | .undefined :: rest => (texts? rest).map ("" :: ·)
  | .gap :: rest => (texts? rest).map ("" :: ·)
  | .null :: rest => (texts? rest).map ("" :: ·)
  | d :: rest => do
    let s ← text? d
    return s :: (← texts? rest)

end

/-- Whether a datum becomes text where it is added to something. -/
def addsAsText : Datum → Bool
  | .text _ => true
  | .boxed (.text _) => true
  | .bytes _ | .units _ | .list _ | .error _ | .settled _ | .failed _ | .pending | .buffer _
  | .function | .newable | .record _ _ | .endless => true
  | _ => false

/-- The digits of a whole number to a base that is marked. -/
def markedDigits? : List Char → Option (Nat × List Char)
  | '0' :: mark :: digits =>
    if mark = 'x' ∨ mark = 'X' then some (16, digits)
    else if mark = 'o' ∨ mark = 'O' then some (8, digits)
    else if mark = 'b' ∨ mark = 'B' then some (2, digits)
    else none
  | _ => none

/-- A whole number in digits of a base. -/
def ofDigits? (base : Nat) (digits : List Char) : Option Nat :=
  if digits.isEmpty then none
  else digits.foldlM (fun n c => do
    let d ← Json.hexValue? c
    if d < base then return n * base + d else none) 0

/-- A numeral after its sign. -/
def numberAfterSign? (negative : Bool) (cs : List Char) : Option Binary64 :=
  if cs = "Infinity".toList then some (.infinity negative)
  else (Numeral.scientific? cs).map fun n => .ofScientific negative n.digits n.exponent

/-- The number that a text spells; blank text is zero. -/
def numberOfText (s : String) : Binary64 :=
  let cs := Text.trim s.toList
  let number? : Option Binary64 := match cs, markedDigits? cs with
    | [], _ => some (.zero false)
    | _, some (base, digits) => (ofDigits? base digits).map fun n => .ofInt n
    | '-' :: cs, none => numberAfterSign? true cs
    | '+' :: cs, none => numberAfterSign? false cs
    | cs, none => numberAfterSign? false cs
  number?.getD .nan

/-- The whole number that a text spells, if it spells one. -/
def wideOfText? (s : String) : Option Int :=
  let cs := Text.trim s.toList
  match cs, markedDigits? cs with
  | [], _ => some 0
  | _, some (base, digits) => (ofDigits? base digits).map fun n => n
  | cs, none => Numeral.integer? cs

/-- A datum without parts in place of any other. -/
def primitive : Datum → Datum
  | .boxed d => d
  | .gap => .undefined
  | d => if d.addsAsText then .text (d.text?.getD "") else d

/-- The number of a datum that is none of the wide ones. -/
def toNumber (d : Datum) : Binary64 :=
  match d.primitive with
  | .null => .zero false
  | .bool b => .ofInt (if b then 1 else 0)
  | .number x => x
  | .text s => numberOfText s
  | _ => .nan

/-- Why an operation on data fails. -/
inductive Fault where
  | notConvertible
  | notNumber (kind : String)
  | notText
  | noProperty (of : String)
  | notCallable
  | notDefined (name : String)
  | endless
  | wideNumber
deriving DecidableEq

def Fault.message : Fault → String
  | .notConvertible => "cannot convert to BigInt"
  | .notNumber kind => s!"cannot convert {kind} to number"
  | .notText => "cannot convert symbol to string"
  | .noProperty of => s!"cannot read property of {of}"
  | .notCallable => "not a function"
  | .notDefined name => s!"'{name}' is not defined"
  | .endless => "circular reference"
  | .wideNumber => "bigint are forbidden in JSON.stringify"

/-- The sum of numbers, or the texts one after the other. -/
def add (a b : Datum) : Except Fault Datum :=
  if a.addsAsText || b.addsAsText then
    match a.text?, b.text? with
    | some s, some t => .ok (.text (s ++ t))
    | _, _ => .error .notText
  else
    match a, b with
    | .wide m, .wide n => .ok (.wide (m + n))
    | .wide _, _ => .error .notConvertible
    | _, .wide _ => .error .notConvertible
    | _, _ => .ok (.number (a.toNumber.add b.toNumber))

/-- Whether a whole number is below a double. -/
def intBelow (n : Int) (x : Binary64) : Bool :=
  match x.shape with
  | .notANumber => false
  | .infinite negative => !negative
  | .finite negative m e =>
    let m : Int := if negative then -(m : Int) else m
    if 0 ≤ e then n < m * (Nat.pow 2 e.toNat : Nat) else n * (Nat.pow 2 (-e).toNat : Nat) < m

/-- Whether a whole number is above a double. -/
def intAbove (n : Int) (x : Binary64) : Bool :=
  match x.shape with
  | .notANumber => false
  | .infinite negative => negative
  | .finite negative m e =>
    let m : Int := if negative then -(m : Int) else m
    if 0 ≤ e then m * (Nat.pow 2 e.toNat : Nat) < n else m < n * (Nat.pow 2 (-e).toNat : Nat)

/-- The units of sixteen bits of a text. -/
def units16 (s : String) : List Nat :=
  s.toList.flatMap fun c =>
    let n := c.toNat
    if n < 0x10000 then [n]
    else [0xd800 + (n - 0x10000) / 0x400, 0xdc00 + (n - 0x10000) % 0x400]

/-- Order of data without parts: of texts by their units, of all others as numbers. -/
def primitiveGreater (a b : Datum) : Bool :=
  match a, b with
  | .text s, .text t => units16 t < units16 s
  | .wide m, .wide n => n < m
  | .wide m, .text t => (wideOfText? t).any (· < m)
  | .text s, .wide n => (wideOfText? s).any (n < ·)
  | .wide m, _ => intAbove m b.toNumber
  | _, .wide n => intBelow n a.toNumber
  | _, _ => b.toNumber.lt a.toNumber

def greater (a b : Datum) : Except Fault Bool :=
  match a.primitive, b.primitive with
  | .symbol, _ | _, .symbol => .error (.notNumber "symbol")
  | a, b => .ok (primitiveGreater a b)

/-- A datum as an item of bytes: its number, cut to a whole one and taken modulo a byte. -/
def toByte (d : Datum) : Except Fault UInt8 :=
  match d.primitive with
  | .wide _ => .error (.notNumber "bigint")
  | .symbol => .error (.notNumber "symbol")
  | d => .ok (.ofNat (((d.toNumber.trunc?.getD 0) % 256).toNat))

mutual

/-- The document of a datum; some data have none. -/
def document : Datum → Except Fault (Option String)
  | .null => .ok (some "null")
  | .bool b => .ok (some (if b then "true" else "false"))
  | .number x => .ok (some (if x.isFinite then Shortest.Layout.script.write x else "null"))
  | .text s => .ok (some (Json.quote s))
  | .wide _ => .error .wideNumber
  | .undefined | .gap | .symbol | .function | .newable => .ok none
  | .bytes b | .units b => .ok (some (bytesDocument b))
  | .list items => do return some ("[" ++ ",".intercalate (← itemDocuments items) ++ "]")
  | .record fields _ => do
    return some ("\x7b" ++ ",".intercalate ((listed (← fieldDocuments fields)).map (·.2)) ++ "\x7d")
  | .boxed d => document d
  | .endless => .error .endless
  | .buffer _ | .error _ | .settled _ | .failed _ | .pending => .ok (some "\x7b\x7d")

/-- Items without a document are null. -/
def itemDocuments : List Datum → Except Fault (List String)
  | [] => .ok []
  | d :: rest => do
    let s ← document d
    return s.getD "null" :: (← itemDocuments rest)

/-- Fields without a document are left out. -/
def fieldDocuments : List (String × Datum) → Except Fault (List (String × String))
  | [] => .ok []
  | (name, d) :: rest => do
    let s ← document d
    let others ← fieldDocuments rest
    return match s with
      | some s => (name, Json.quote name ++ ":" ++ s) :: others
      | none => others

def bytesDocument (b : Bytes) : String :=
  "\x7b" ++ ",".intercalate (b.mapIdx fun i n => Json.quote (toString i) ++ ":" ++ toString n.toNat)
    ++ "\x7d"

end

end Datum

end TrieFeed.Script
