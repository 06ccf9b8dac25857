import RecordStore.Text.Quoted

/-! What can be wrong with a time. -/
namespace RecordStore

inductive Impossible where
  | year (n : Int)
  | month
  | day
  | hour
  | minute
  | second
  | offset
  /-- A clock reading at one end of an interval, and at the other a date or a time of day. -/
  | ends
deriving DecidableEq

def Impossible.text : Impossible → String
  | year n => s!"year {n} is out of range"
  | month => "month must be in 1..12"
  | day => "day is out of range for month"
  | hour => "hour must be in 0..23"
  | minute => "minute must be in 0..59"
  | second => "second must be in 0..59"
  | offset =>
    "offset must be a timedelta strictly between -timedelta(hours=24) and timedelta(hours=24)."
  | ends => "Both start and end of an Interval must have the same type"

inductive TimeFault where
  | unparsable (text : String)
  | notTimestamp (text : String)
  | notDuration (text : String)
  | calendarDuration (text : String)
  | impossible (what : Impossible)
  | notDateLike (kind : String)
  /-- An hour that awaits a minute. -/
  | noMinute
  /-- A duration or a time of day reckoned from a plain date. -/
  | fromDate
  /-- A duration or another time of day reckoned from a time of day. -/
  | fromClock
  /-- A duration reckoned from a duration. -/
  | fromSpan
  | notReading
  | unknownUnit
  | noUnits
  | notWhole
  | outOfRange
deriving DecidableEq

namespace TimeFault

def message? : TimeFault → Option String
  | unparsable text => some s!"Unable to parse string [{text}]"
  | notTimestamp text => some s!"{Text.quoted text} is not an ISO-8601 timestamp"
  | notDuration text => some s!"{Text.quoted text} is not an ISO-8601 duration"
  | calendarDuration text =>
    some s!"duration {Text.quoted text} has year or month components, which have no fixed length"
  | impossible what => some what.text
  | notDateLike kind => some s!"expected a date, datetime or ISO-8601 string, got {kind}"
  | noMinute | fromDate | fromClock | fromSpan => none
  | notReading | unknownUnit | noUnits | notWhole | outOfRange => none

def text (f : TimeFault) : String := f.message?.getD ""

/-- Whether a text is at fault for what it says. -/
def isRefusal : TimeFault → Bool
  | unparsable _ | notTimestamp _ | notDuration _ | calendarDuration _ | impossible _ => true
  | _ => false

/-- Whether a value is at fault for what it says or is. -/
def isMismatch : TimeFault → Bool
  | notDateLike _ | noMinute | fromDate | fromClock => true
  | f => f.isRefusal

end TimeFault

end RecordStore
