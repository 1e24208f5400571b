/-!
# Calendar

Days are counted from 1970-01-01 and seconds from its midnight, in both directions. Dates are those
of the Gregorian calendar, extended without end.
-/
namespace TrieFeed.Time

structure Date where
  year : Int
  month : Nat
  day : Nat
deriving DecidableEq

/-- The time of day. -/
structure Clock where
  hour : Nat
  minute : Nat
  second : Nat
deriving DecidableEq

def daySeconds : Int := 86400

/-- The day of a count of seconds. -/
def dayOf (seconds : Int) : Int := seconds.fdiv daySeconds

/-- The seconds since midnight. -/
def secondOfDay (seconds : Int) : Nat := (seconds.fmod daySeconds).toNat

def clockOf (seconds : Int) : Clock :=
  let s := secondOfDay seconds
  ⟨s / 3600, s / 60 % 60, s % 60⟩

/-- The date of a day. Years are counted from March, so that the leap day comes last, and in eras of
four hundred years, all of which are equally long. -/
def dateOf (day : Int) : Date :=
  let shifted := day + 719468
  let era := shifted.fdiv 146097
  let dayOfEra := (shifted.fmod 146097).toNat
  let yearOfEra :=
    (dayOfEra - dayOfEra / 1460 + dayOfEra / 36524 - dayOfEra / 146096) / 365
  let dayOfYear := dayOfEra - (365 * yearOfEra + yearOfEra / 4 - yearOfEra / 100)
  let monthFromMarch := (5 * dayOfYear + 2) / 153
  let day := dayOfYear - (153 * monthFromMarch + 2) / 5 + 1
  let month := if monthFromMarch < 10 then monthFromMarch + 3 else monthFromMarch - 9
  let year : Int := (yearOfEra : Int) + era * 400
  ⟨if month ≤ 2 then year + 1 else year, month, day⟩

def isLeap (year : Int) : Bool := year % 4 = 0 && (year % 100 ≠ 0 || year % 400 = 0)

/-- How many days a month has. -/
def daysIn (year : Int) (month : Nat) : Nat :=
  match month with
  | 2 => if isLeap year then 29 else 28
  | 4 | 6 | 9 | 11 => 30
  | _ => 31

/-- The day of the first of January. -/
def dayOfYearStart (year : Int) : Int :=
  let y := year - 1
  y * 365 + y.fdiv 4 - y.fdiv 100 + y.fdiv 400 - 719162

/-- The day of the week, from Sunday as one to Saturday as seven. -/
def weekday (day : Int) : Nat := ((day + 4).fmod 7).toNat + 1

/-- At least so many digits, with zeros in front. -/
def padded (width n : Nat) : String :=
  let digits := (Nat.repr n).toList
  .ofList (List.replicate (width - digits.length) '0' ++ digits)

/-- Years of four digits stand alone, all others carry a sign. -/
def yearText (year : Int) : String :=
  if 0 ≤ year ∧ year ≤ 9999 then padded 4 year.toNat
  else (if year < 0 then "-" else "+") ++ padded 4 year.natAbs

def Date.text (d : Date) : String :=
  yearText d.year ++ "-" ++ padded 2 d.month ++ "-" ++ padded 2 d.day

def Clock.text (c : Clock) : String :=
  padded 2 c.hour ++ ":" ++ padded 2 c.minute ++ ":" ++ padded 2 c.second

/-- An instant in universal time. -/
def instantText (seconds : Int) : String :=
  (dateOf (dayOf seconds)).text ++ "T" ++ (clockOf seconds).text ++ "Z"

end TrieFeed.Time
