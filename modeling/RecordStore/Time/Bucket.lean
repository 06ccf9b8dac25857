import RecordStore.Time.Fault
import RecordStore.Time.Instant

/-! Buckets of time: a whole number of calendar units, or of one fixed length from a base. A bucket
is known by the instant at which it starts. -/
namespace RecordStore

inductive CalendarUnit where
  | year
  | month
  | week
  | day
  | hour
  | minute
  | second
deriving DecidableEq

namespace CalendarUnit

def all : List CalendarUnit := [year, month, week, day, hour, minute, second]

def name : CalendarUnit → String
  | year => "year"
  | month => "month"
  | week => "week"
  | day => "day"
  | hour => "hour"
  | minute => "minute"
  | second => "second"

def ofName? (s : String) : Option CalendarUnit := all.find? fun u => u.name = s

/-- The place of an instant among the units of a kind. Years, months and weeks are counted from the
start of the calendar, smaller units from the start of the unit that holds them. -/
def index (t : Instant) : CalendarUnit → Nat
  | year => t.civil.year - 1
  | month => (t.civil.year - 1) * 12 + (t.civil.month - 1)
  | week => t.date.day / 7
  | day => t.civil.day - 1
  | hour => t.hour
  | minute => t.minute
  | second => t.second

/-- The start of the unit with that index, among those that an instant's place is counted in. -/
def start? (t : Instant) (index : Nat) : CalendarUnit → Option Instant
  | year => (Date.ofCivil? ⟨index + 1, 1, 1⟩).map .startOf
  | month => (Date.ofCivil? ⟨index / 12 + 1, index % 12 + 1, 1⟩).map .startOf
  | week => (Date.ofDay? (index * 7)).map .startOf
  | day => (Date.ofCivil? ⟨t.civil.year, t.civil.month, index + 1⟩).map .startOf
  | hour => if index < 24 then Instant.ofTime? t.date index 0 0 else none
  | minute => if index < 60 then Instant.ofTime? t.date t.hour index 0 else none
  | second => if index < 60 then Instant.ofTime? t.date t.hour t.minute index else none

/-- The number that stands for a unit of that index on the calendar or the clock. -/
def number (index : Int) : CalendarUnit → Int
  | year | day => index + 1
  | month => index / 12 + 1
  | week => index * 7 + 1
  | hour | minute | second => index

def absent (number : Int) : CalendarUnit → Impossible
  | year | month | week => .year number
  | day => .day
  | hour => .hour
  | minute => .minute
  | second => .second

end CalendarUnit

namespace Instant

/-- The largest multiple of the count that is not above the index or, for a negative count, the
least that is not below. -/
def floorTo (index : Nat) (count : Int) : Int := index - Int.fmod index count

/-- Start of the bucket of `count` units around an instant; the last bucket of what holds the units
may be cut short. A negative count gives the end of the bucket, which may lie beyond. -/
def calendarBucket (unit : CalendarUnit) (count : Int) (t : Instant) : Except TimeFault Instant :=
  if count = 0 then .error .noUnits
  else
    let index := floorTo (unit.index t) count
    match unit.start? t index.toNat with
    | some b => .ok b
    | none =>
      let number := unit.number index
      .error (if number < 2147483648 then .impossible (unit.absent number) else .outOfRange)

/-- Start of the bucket of a fixed length; none if it lies before the calendar. -/
def bucket? (origin : Instant) (step : Int) (t : Instant) : Option Instant :=
  let index := Int.fdiv ((t.micros : Int) - origin.micros) step
  Instant.ofMicros? (origin.micros + index * step)

end Instant

end RecordStore
