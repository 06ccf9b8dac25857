import RecordStore.Time.Elapsed
import RecordStore.Time.Loose
import RecordStore.Time.Present

/-! Texts of times: timestamps, durations and intervals. -/
namespace RecordStore.TimeText

inductive Meaning where
  | point (f : Iso.Form)
  | interval (e : Elapsed)
  | present

def presentWord : String := "now"

/-- What a text denotes: an ISO 8601 form, an interval between two of them, or else a timestamp in
another form. One word stands for the present. -/
def meaning (text : String) : Except TimeFault Meaning :=
  let cs := text.toList
  if text = presentWord then .ok .present
  else match Iso.form? cs with
  | some f => .ok (.point f)
  | none =>
    let interval? := match Text.split '/' cs with
      | [first, last] => Elapsed.ofSides? first last
      | _ => none
    match interval?, Loose.read? cs with
    | some e, _ => e.map .interval
    | none, some f => f.map .point
    | none, none => .error (.unparsable text)

def spanLimit : Nat := 1000000000 * microsPerDay

/-- Microseconds that are left when a length is carried as a binary64 number of seconds: beyond
2^33 seconds they are no longer exact. -/
def throughSeconds (micros : Int) : Int :=
  let magnitude := match Binary64.ofRatio false micros.natAbs microsPerSecond with
    | .finite _ units _ =>
      let part := match Binary64.nearest false (units % Binary64.one * microsPerSecond) 1 with
        | .finite _ p _ => Binary64.roundDiv p Binary64.one
        | _ => 0
      units / Binary64.one * microsPerSecond + part
    | _ => 0
  if micros < 0 then -(magnitude : Int) else magnitude

def instantOf (t : DateTime) : Except TimeFault Instant :=
  if !t.hasClock then .error (.impossible .offset)
  else match t.toInstant? with
    | some u => .ok u
    | none => .error .outOfRange

def bounded (s : Span) : Except TimeFault Span :=
  if spanLimit ≤ s.nominalMicros then .error .outOfRange else .ok s

/-- The instant that a timestamp's text denotes; a time of day alone is one of today. -/
def parseTimestamp [Present] (text : String) : Except TimeFault Instant := do
  match ← meaning text with
  | .present => return Present.instant
  | .point (.date d) => return .startOf d
  | .point (.reading t) => instantOf t
  | .point (.clock micros) => return .within Present.today micros
  | .point (.span s) =>
    let _ ← bounded s
    throw (.notTimestamp text)
  | .interval _ => throw (.notTimestamp text)

/-- The microseconds that the text of a duration or an interval of fixed length denotes. -/
def parseDuration (text : String) : Except TimeFault Int := do
  let (micros, calendrical) ← match ← meaning text with
    | .point (.span s) =>
      let s ← bounded s
      pure ((s.nominalMicros : Int), s.isCalendrical)
    | .interval e => pure (e.micros, e.calendrical)
    | _ => throw (.notDuration text)
  if calendrical then throw (.calendarDuration text)
  return throughSeconds micros

end RecordStore.TimeText
