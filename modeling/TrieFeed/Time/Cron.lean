import TrieFeed.Text.Blank
import TrieFeed.Number.Numeral
import TrieFeed.Time.Calendar
/-!
# Cron expressions

An expression has fields for second, minute, hour, day of month, month, day of week and optionally
year; with five fields the second is zero. Each field is a set of numbers, and an instant matches
where every field holds it, both day fields included. Sunday is day one.
-/
namespace TrieFeed.Time.Cron

/-- The range of a field, and the names of its numbers. -/
structure Unit where
  least : Nat
  greatest : Nat
  names : List (String × Nat)
  /-- Whether `?` stands for every number. -/
  hasAny : Bool

def Unit.second : Unit := ⟨0, 59, [], false⟩

def Unit.minute : Unit := ⟨0, 59, [], false⟩

def Unit.hour : Unit := ⟨0, 23, [], false⟩

def Unit.dayOfMonth : Unit := ⟨1, 31, [], true⟩

def Unit.month : Unit := ⟨1, 12,
  [("jan", 1), ("january", 1), ("feb", 2), ("february", 2), ("mar", 3), ("march", 3), ("apr", 4),
    ("april", 4), ("may", 5), ("jun", 6), ("june", 6), ("jul", 7), ("july", 7), ("aug", 8),
    ("august", 8), ("sep", 9), ("september", 9), ("oct", 10), ("october", 10), ("nov", 11),
    ("november", 11), ("dec", 12), ("december", 12)], false⟩

def Unit.dayOfWeek : Unit := ⟨1, 7,
  [("sun", 1), ("sunday", 1), ("mon", 2), ("monday", 2), ("tue", 3), ("tues", 3), ("tuesday", 3),
    ("wed", 4), ("wednesday", 4), ("thu", 5), ("thurs", 5), ("thursday", 5), ("fri", 6),
    ("friday", 6), ("sat", 7), ("saturday", 7)], true⟩

def Unit.year : Unit := ⟨1970, 2100, [], false⟩

/-- An inclusive range of numbers, every `step`th of them. -/
structure Span where
  first : Nat
  last : Nat
  step : Nat
deriving DecidableEq

def Span.holds (s : Span) (n : Nat) : Bool :=
  s.first ≤ n && n ≤ s.last && (n - s.first) % s.step == 0

/-- The numbers of a field. -/
abbrev Field := List Span

def Field.holds (f : Field) (n : Nat) : Bool := f.any (·.holds n)

def Unit.every (u : Unit) : Field := [⟨u.least, u.greatest, 1⟩]

structure Expression where
  seconds : Field
  minutes : Field
  hours : Field
  daysOfMonth : Field
  months : Field
  daysOfWeek : Field
  years : Field
deriving DecidableEq

/-- The blanks that may stand around fields, and around the numbers and names in them. -/
def isSpace (c : Char) : Bool := c = ' ' || c = '\t' || c = '\r' || c = '\n'

def skipSpace (cs : List Char) : List Char := cs.dropWhile isSpace

/-- A number at the front, of at most thirty-two bits, with the blanks around it. -/
def ordinal? (cs : List Char) : Option (Nat × List Char) :=
  let cs := skipSpace cs
  let digits := cs.takeWhile Numeral.isDigit
  if digits = [] ∨ Nat.pow 2 32 ≤ Numeral.ofDigits digits then none
  else some (Numeral.ofDigits digits, skipSpace (cs.dropWhile Numeral.isDigit))

/-- A name at the front, with the blanks around it. -/
def name? (cs : List Char) : Option (String × List Char) :=
  let cs := skipSpace cs
  let letters := cs.takeWhile Char.isAlpha
  if letters = [] then none
  else some (Text.asciiLower (.ofList letters), skipSpace (cs.dropWhile Char.isAlpha))

/-- What a range is written as, before its numbers are checked. -/
inductive Base where
  | every
  | point (n : Nat)
  | range (a b : Nat)
  | names (a b : String)

/-- A range at the front; a lone name is none. -/
def base? (u : Unit) (cs : List Char) : Option (Base × List Char) :=
  match cs with
  | '*' :: rest => some (.every, rest)
  | c :: rest =>
    if c = '?' ∧ u.hasAny then some (.every, rest)
    else match ordinal? cs with
      | some (a, '-' :: rest) =>
        match ordinal? rest with
        | some (b, rest) => some (.range a b, rest)
        | none => some (.point a, '-' :: rest)
      | some (a, rest) => some (.point a, rest)
      | none =>
        match name? cs with
        | some (a, '-' :: rest) =>
          match name? rest with
          | some (b, rest) => some (.names a b, rest)
          | none => none
        | _ => none
  | [] => none

def Unit.valid? (u : Unit) (n : Nat) : Option Nat :=
  if u.least ≤ n ∧ n ≤ u.greatest then some n else none

def Unit.named? (u : Unit) (name : String) : Option Nat :=
  (u.names.find? (·.1 = name)).map (·.2)

def Unit.span? (u : Unit) (a b step : Nat) : Option Span :=
  (u.valid? a).bind fun a => (u.valid? b).bind fun b =>
    if a ≤ b then some ⟨a, b, step⟩ else none

/-- The span of a range with a step; a point with a step runs to the end. -/
def Base.span? (u : Unit) (step : Option Nat) : Base → Option Span
  | .every => some ⟨u.least, u.greatest, step.getD 1⟩
  | .point n => u.span? n (if step.isSome then u.greatest else n) (step.getD 1)
  | .range a b => u.span? a b (step.getD 1)
  | .names a b =>
    (u.named? a).bind fun a => (u.named? b).bind fun b => u.span? a b (step.getD 1)

/-- One member of a field's list. -/
def member? (u : Unit) (cs : List Char) : Option (Span × List Char) :=
  match base? u cs with
  | some (base, rest) =>
    let stepped : Option (Nat × List Char) := match rest with
      | '/' :: rest => ordinal? rest
      | _ => none
    match stepped with
    | some (step, rest) =>
      if step = 0 then none else (base.span? u (some step)).map fun s => (s, rest)
    | none => (base.span? u none).map fun s => (s, rest)
  | none =>
    match name? cs with
    | some (name, rest) => (u.named? name).map fun n => (⟨n, n, 1⟩, rest)
    | none => none

/-- The members of a field, separated by commas. -/
def members? (u : Unit) : Nat → List Char → Option (Field × List Char)
  | 0, _ => none
  | fuel + 1, cs =>
    match member? u cs with
    | none => none
    | some (span, ',' :: rest) =>
      (members? u fuel rest).map fun (spans, rest) => (span :: spans, rest)
    | some (span, rest) => some ([span], rest)

/-- A field at the front, with the blanks around it. -/
def field? (u : Unit) (cs : List Char) : Option (Field × List Char) :=
  (members? u (cs.length + 1) (skipSpace cs)).map fun (f, rest) => (f, skipSpace rest)

/-- The five expressions that have a name. -/
def shorthand? (cs : List Char) : Option Expression :=
  let zero : Field := [⟨0, 0, 1⟩]
  let one : Field := [⟨1, 1, 1⟩]
  let days := Unit.dayOfMonth.every
  let months := Unit.month.every
  let weekdays := Unit.dayOfWeek.every
  let years := Unit.year.every
  match String.ofList (skipSpace cs) with
  | "@yearly" => some ⟨zero, zero, zero, one, one, weekdays, years⟩
  | "@monthly" => some ⟨zero, zero, zero, one, months, weekdays, years⟩
  | "@weekly" => some ⟨zero, zero, zero, days, months, one, years⟩
  | "@daily" => some ⟨zero, zero, zero, days, months, weekdays, years⟩
  | "@hourly" => some ⟨zero, zero, Unit.hour.every, days, months, weekdays, years⟩
  | _ => none

def longhand? (cs : List Char) : Option Expression := do
  let (seconds, rest) ← field? .second cs
  let (minutes, rest) ← field? .minute rest
  let (hours, rest) ← field? .hour rest
  let (daysOfMonth, rest) ← field? .dayOfMonth rest
  let (months, rest) ← field? .month rest
  let (daysOfWeek, rest) ← field? .dayOfWeek rest
  if rest = [] then
    return ⟨seconds, minutes, hours, daysOfMonth, months, daysOfWeek, Unit.year.every⟩
  else
    let (years, rest) ← field? .year rest
    guard (rest = [])
    return ⟨seconds, minutes, hours, daysOfMonth, months, daysOfWeek, years⟩

/-- The number of words between blanks. -/
def wordCount : List Char → Bool → Nat
  | [], _ => 0
  | c :: cs, inWord =>
    if Text.isBlank c then wordCount cs false
    else (if inWord then 0 else 1) + wordCount cs true

/-- Expressions of five words get a second field of zero. -/
def normalized (text : List Char) : List Char :=
  let cs := Text.trim text
  if wordCount cs false = 5 then '0' :: ' ' :: cs else cs

def read? (text : String) : Option Expression :=
  let cs := normalized text.toList
  match shorthand? (skipSpace cs.reverse).reverse with
  | some e => some e
  | none => longhand? cs

def Expression.matchesDay (e : Expression) (day : Int) : Bool :=
  let date := dateOf day
  0 ≤ date.year && e.years.holds date.year.toNat && e.months.holds date.month
    && e.daysOfMonth.holds date.day && e.daysOfWeek.holds (weekday day)

def Expression.matchesClock (e : Expression) (c : Clock) : Bool :=
  e.hours.holds c.hour && e.minutes.holds c.minute && e.seconds.holds c.second

/-- Whether the expression fires at an instant. -/
def Expression.fires (e : Expression) (seconds : Int) : Bool :=
  e.matchesDay (dayOf seconds) && e.matchesClock (clockOf seconds)

/-- The least member of a field from `n` on, below `bound`. -/
def Field.next? (f : Field) (bound n : Nat) : Option Nat :=
  ((List.range (bound - n)).find? fun i => f.holds (n + i)).map (n + ·)

/-- The first firing time of a day at or after an hour, minute and second. -/
def Expression.clockFrom? (e : Expression) (c : Clock) : Option Clock :=
  let firstSecond? := e.seconds.next? 60 0
  let firstMinute? := e.minutes.next? 60 0
  let sameMinute : Option Clock :=
    if e.hours.holds c.hour && e.minutes.holds c.minute then
      (e.seconds.next? 60 c.second).map fun s => ⟨c.hour, c.minute, s⟩
    else none
  let sameHour : Option Clock :=
    if e.hours.holds c.hour then
      (e.minutes.next? 60 (c.minute + 1)).bind fun m => firstSecond?.map fun s => ⟨c.hour, m, s⟩
    else none
  let later : Option Clock :=
    (e.hours.next? 24 (c.hour + 1)).bind fun h =>
      firstMinute?.bind fun m => firstSecond?.map fun s => ⟨h, m, s⟩
  sameMinute <|> sameHour <|> later

/-- The first firing time of a day. -/
def Expression.firstClock? (e : Expression) : Option Clock := e.clockFrom? ⟨0, 0, 0⟩

def instant (day : Int) (c : Clock) : Int :=
  day * daySeconds + (c.hour * 3600 + c.minute * 60 + c.second : Nat)

/-- The first firing on one of `count` days from `day` on. -/
def Expression.fromDay? (e : Expression) : Nat → Int → Option Int
  | 0, _ => none
  | count + 1, day =>
    if e.matchesDay day then e.firstClock?.map (instant day) else e.fromDay? count (day + 1)

/-- The day after the last one that any expression fires on. -/
def endDay : Int := dayOfYearStart 2101

/-- The first firing strictly after an instant. -/
def Expression.next? (e : Expression) (after : Int) : Option Int :=
  let start := max (after + 1) 0
  let day := dayOf start
  let today : Option Int :=
    if e.matchesDay day then (e.clockFrom? (clockOf start)).map (instant day) else none
  today <|> e.fromDay? (endDay - (day + 1)).toNat (day + 1)

/-- The first `count` firings strictly after an instant. -/
def Expression.upcoming (e : Expression) : Nat → Int → List Int
  | 0, _ => []
  | count + 1, after =>
    match e.next? after with
    | some t => t :: e.upcoming count t
    | none => []

end TrieFeed.Time.Cron
