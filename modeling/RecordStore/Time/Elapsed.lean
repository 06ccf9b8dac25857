import RecordStore.Time.Fault
import RecordStore.Time.Iso

/-! The time between two dates or two clock readings, and the readings that a duration reaches. -/
namespace RecordStore

structure Fields where
  year : Int
  month : Int
  day : Int
  hour : Int := 0
  minute : Int := 0
  second : Int := 0
  micro : Int := 0

namespace Fields

def ofDate (d : Date) : Fields :=
  { year := d.civil.year, month := d.civil.month, day := d.civil.day }

def ofInstant (t : Instant) : Fields :=
  { ofDate t.date with
    hour := t.hour, minute := t.minute, second := t.second, micro := t.microsecond }

def clock (f : Fields) : List Int := [f.hour, f.minute, f.second, f.micro]

def all (f : Fields) : List Int := [f.year, f.month, f.day] ++ f.clock

/-- Makes up for one run over or under in a field with the next larger one. -/
def carry (size small large : Int) : Int × Int :=
  if small < 0 then (small + size, large - 1)
  else if size < small then (small - size, large + 1) else (small, large)

/-- The fields with an offset in seconds taken away, field by field; the day may leave its month. -/
def setBack (offset : Int) (f : Fields) : Fields :=
  let rest := offset.tmod 3600
  let (second, minute) := carry 60 (f.second - rest.tmod 60) (f.minute - rest.tdiv 60)
  let (minute, hour) := carry 60 minute (f.hour - offset.tdiv 3600)
  let (hour, day) := carry 24 hour f.day
  { f with day, hour, minute, second }

/-- Whether a whole month lies between, the first not being later. The day of the month has to be
reached, or the days short of it have to be those by which the last month is longer than the one
before it. -/
def spansMonth (a b : Fields) : Bool :=
  let months := 12 * (b.year - a.year) + (b.month - a.month)
  let days := b.day - a.day - (if b.clock < a.clock then 1 else 0)
  let (year, month) := (b.year.toNat, b.month.toNat)
  let before := if month = 1 then 31 else Calendar.daysInMonth year (month - 1)
  let full := (Calendar.daysInMonth year month : Int) - before
  1 ≤ (if days < 0 ∧ days ≠ full then months - 1 else months)

end Fields

/-- The time from one point to another, and whether it counts in months. -/
structure Elapsed where
  micros : Int
  calendrical : Bool
deriving DecidableEq

namespace Elapsed

def ofFields (micros : Int) (a b : Fields) : Elapsed :=
  ⟨micros, if b.all < a.all then b.spansMonth a else a.spansMonth b⟩

def betweenDates (d e : Date) : Elapsed :=
  ofFields (((e.day : Int) - d.day) * microsPerDay) (.ofDate d) (.ofDate e)

/-- Months are counted on the clocks, or in universal time if the offsets differ or the clocks show
one date. -/
def betweenReadings (t u : DateTime) : Except TimeFault Elapsed :=
  if !t.hasClock || !u.hasClock then .error (.impossible .offset)
  else if t.offset = u.offset ∧ (t.toInstant?.isNone ∨ u.toInstant?.isNone) then .error .outOfRange
  else
    let fields (v : DateTime) : Fields :=
      if t.offset ≠ u.offset ∨ t.wall.date = u.wall.date then
        (Fields.ofInstant v.wall).setBack ((v.offset.getD 0).tdiv microsPerSecond)
      else .ofInstant v.wall
    .ok (ofFields (u.universalMicros - t.universalMicros) (fields t) (fields u))

def between : Iso.Form → Iso.Form → Except TimeFault Elapsed
  | .date d, .date e => .ok (betweenDates d e)
  | .reading t, .reading u => betweenReadings t u
  | .span _, _ | _, .span _ => .error .fromSpan
  | .reading _, _ | _, .reading _ => .error (.impossible .ends)
  | .clock _, _ | _, .clock _ => .error .fromClock

end Elapsed

namespace DateTime

/-- The same clock showing so many microseconds since the start of the calendar. -/
def showing (t : DateTime) (micros : Int) : Except TimeFault DateTime :=
  match Instant.ofMicros? micros with
  | some wall => .ok { t with wall }
  | none => .error .outOfRange

/-- The same clock so many months on; the day is kept, or is the last of a shorter month. -/
def movedMonths (t : DateTime) (months : Int) : Except TimeFault DateTime :=
  let c := t.wall.civil
  let index := 12 * ((c.year : Int) - 1) + ((c.month : Int) - 1) + months
  let (year, month) := (Int.fdiv index 12 + 1, (Int.fmod index 12).toNat + 1)
  if 1 ≤ year ∧ year ≤ 9999 then
    let day := min c.day (Calendar.daysInMonth year.toNat month)
    t.showing (Calendar.dayNumber ⟨year.toNat, month, day⟩ * microsPerDay + t.wall.timeOfDay)
  else if year.natAbs < 2147483648 then .error (.impossible (.year year))
  else .error .outOfRange

/-- The same clock a duration later or, if `back`, earlier. With days or more it goes by the clock,
months first, and else by universal time. -/
def moved (t : DateTime) (back : Bool) (s : Span) : Except TimeFault DateTime := do
  let signed (n : Nat) : Int := if back then -(n : Int) else n
  if s.countsDays then
    let t ← t.movedMonths (signed s.monthCount)
    t.showing (t.wall.micros + signed s.fixedMicros)
  else
    if !t.hasClock then throw (.impossible .offset)
    let universal ← { t with offset := some 0 }.showing t.universalMicros
    let universal ← universal.showing (universal.wall.micros + signed s.fixedMicros)
    t.showing (universal.wall.micros + t.offset.getD 0)

end DateTime

namespace Elapsed

/-- From a point to the one that a duration reaches or, if `back`, the other way round. -/
def reaching (back : Bool) (s : Span) : Iso.Form → Except TimeFault Elapsed
  | .span _ => .error .fromSpan
  | .date _ => .error .fromDate
  | .clock _ => .error .fromClock
  | .reading t => do
    let u ← t.moved back s
    if back then betweenReadings u t else betweenReadings t u

/-- The time between the two sides of an interval's text: two points, or a point and a duration
before or after it. None if a side is neither. -/
def ofSides? (first last : List Char) : Option (Except TimeFault Elapsed) := do
  match ← Iso.form? first, ← Iso.form? last with
  | .span s, point => return reaching true s point
  | point, .span s => return reaching false s point
  | start, finish => return between start finish

end Elapsed

end RecordStore
