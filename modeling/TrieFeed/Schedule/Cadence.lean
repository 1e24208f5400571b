import TrieFeed.Plugin.Error
import TrieFeed.Schedule.Plan
import TrieFeed.Time.Cron
/-!
# Cadences

A plan fires by a cron expression, or else at a fixed interval of minutes, hours or days. Instants
are seconds since 1970.
-/
namespace TrieFeed.Schedule

/-- Why a plan has no cadence. -/
inductive Fault where
  | noCadence
  | badCron (text : String)
  | badInterval (text : String)
deriving DecidableEq

def Fault.message : Fault → String
  | .noCadence => "schedule declares neither `cron` nor `interval`"
  | .badCron text => s!"invalid cron expression `{text}`: not an expression"
  | .badInterval text => s!"invalid interval `{text}`"

def Fault.toError (fault : Fault) : PluginError := .schedule fault.message

/-- The seconds of a unit of intervals. -/
def unitSeconds? : Char → Option Nat
  | 'm' => some 60
  | 'h' => some 3600
  | 'd' => some 86400
  | _ => none

/-- A positive number and a unit, whose seconds must fit in sixty-four bits. -/
def interval? (text : String) : Option Nat :=
  match (Text.trim text.toList).map Char.toLower |>.reverse with
  | [] => none
  | u :: digits =>
    (unitSeconds? u).bind fun seconds => (Numeral.natural? digits.reverse).bind fun n =>
      if 0 < n ∧ n < Nat.pow 2 64 ∧ n * seconds < Nat.pow 2 64 then some (n * seconds) else none

def readInterval (text : String) : Except Fault Nat :=
  match interval? text with
  | some seconds => .ok seconds
  | none => .error (.badInterval text)

/-- When a job fires. -/
inductive Cadence where
  | cron (e : Time.Cron.Expression)
  | every (seconds : Nat)
deriving DecidableEq

/-- A text that is there and not blank. -/
def spelled? (text : Option String) : Option String := text.filter fun s => !Text.allBlank s

/-- The cadence of a plan; a cron expression goes before an interval. -/
def Cadence.ofPlan (p : Plan) : Except Fault Cadence :=
  match spelled? p.cron, spelled? p.interval with
  | some text, _ =>
    match Time.Cron.read? text with
    | some e => .ok (.cron e)
    | none => .error (.badCron text)
  | none, some text => (readInterval text).map .every
  | none, none => .error .noCadence

/-- The first firing of a job that is scheduled now; intervals start at once. -/
def Cadence.first? (now : Int) : Cadence → Option Int
  | .cron e => e.next? now
  | .every _ => some now

/-- The last second that instants reach. -/
def lastInstant : Int := 8210266876799

/-- The firing after one at an instant. -/
def Cadence.next? (after : Int) : Cadence → Option Int
  | .cron e => e.next? after
  | .every seconds =>
    if after + seconds ≤ lastInstant then some (after + seconds) else none

end TrieFeed.Schedule
