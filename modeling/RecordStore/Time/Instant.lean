import RecordStore.Time.Calendar

/-! Instants at microsecond resolution from 0001-01-01T00:00:00 to 9999-12-31T23:59:59.999999, and
readings of a clock with or without an offset from universal time. -/
namespace RecordStore

def microsPerSecond : Nat := 1000000
def microsPerDay : Nat := 86400 * microsPerSecond

/-- Microseconds since the start of the calendar, in universal time. -/
structure Instant where
  micros : Nat
  inRange : micros < Calendar.dayCount * microsPerDay
deriving DecidableEq

namespace Instant

/-- None before the year 1 and after the year 9999. -/
def ofMicros? (micros : Int) : Option Instant :=
  if h : 0 ≤ micros ∧ micros.toNat < Calendar.dayCount * microsPerDay then some ⟨micros.toNat, h.2⟩
  else none

def startOf (d : Date) : Instant :=
  ⟨d.day * microsPerDay, Nat.mul_lt_mul_of_pos_right d.inRange (by decide)⟩

theorem lt_of_timeOfDay (d : Date) {micros : Nat} (h : micros < microsPerDay) :
    d.day * microsPerDay + micros < Calendar.dayCount * microsPerDay := by
  have hday := Nat.mul_le_mul_right microsPerDay (Nat.succ_le_of_lt d.inRange)
  rw [Nat.succ_mul] at hday
  exact Nat.lt_of_lt_of_le (Nat.add_lt_add_left h _) hday

/-- The instant of a date so many microseconds behind midnight, less than a day. -/
def within (d : Date) (micros : Nat) : Instant :=
  ⟨d.day * microsPerDay + micros % microsPerDay, lt_of_timeOfDay d (Nat.mod_lt _ (by decide))⟩

def ofTime? (d : Date) (hour minute second : Nat) : Option Instant :=
  ofMicros? (d.day * microsPerDay + ((hour * 60 + minute) * 60 + second) * microsPerSecond)

/-- The start of 1970, from which buckets are counted unless a base is given. -/
def epoch : Instant := ⟨719162 * microsPerDay, by decide⟩

def date (t : Instant) : Date :=
  ⟨t.micros / microsPerDay, Nat.div_lt_of_lt_mul (Nat.mul_comm _ _ ▸ t.inRange)⟩

def civil (t : Instant) : Civil := t.date.civil

def timeOfDay (t : Instant) : Nat := t.micros % microsPerDay

def hour (t : Instant) : Nat := t.timeOfDay / (3600 * microsPerSecond)
def minute (t : Instant) : Nat := t.timeOfDay / (60 * microsPerSecond) % 60
def second (t : Instant) : Nat := t.timeOfDay / microsPerSecond % 60
def microsecond (t : Instant) : Nat := t.timeOfDay % microsPerSecond

/-- Date and time; six places of a second unless they are zero. -/
def fields (t : Instant) : List Char :=
  t.date.text ++ 'T' :: Text.padded 2 t.hour ++ ':' :: Text.padded 2 t.minute ++
    ':' :: Text.padded 2 t.second ++
    if t.microsecond = 0 then [] else '.' :: Text.padded 6 t.microsecond

def text (t : Instant) : String := String.ofList (t.fields ++ ['Z'])

end Instant

/-- A reading of a clock: what it shows, and its offset in microseconds if it is known. -/
structure DateTime where
  wall : Instant
  offset : Option Int
deriving DecidableEq

namespace DateTime

/-- Microseconds in universal time, on a clock without an offset taken as they are. -/
def universalMicros (t : DateTime) : Int :=
  t.wall.micros - t.offset.getD 0

/-- Offsets stay below a day. -/
def hasClock (t : DateTime) : Bool := (t.offset.getD 0).natAbs < microsPerDay

def toInstant? (t : DateTime) : Option Instant := Instant.ofMicros? t.universalMicros

/-- Readings with and without an offset are never the same; with offsets the instants count. -/
def eq (t u : DateTime) : Bool :=
  t.offset.isSome == u.offset.isSome && t.universalMicros == u.universalMicros

def lt? (t u : DateTime) : Option Bool :=
  if t.offset.isSome = u.offset.isSome then some (t.universalMicros < u.universalMicros) else none

/-- Seconds are left out while they are zero, and so are microseconds. -/
def offsetText (micros : Int) : List Char :=
  let seconds := micros.natAbs / microsPerSecond
  let micro := micros.natAbs % microsPerSecond
  (if micros < 0 then '-' else '+') :: Text.padded 2 (seconds / 3600) ++
    ':' :: Text.padded 2 (seconds / 60 % 60) ++
    (if seconds % 60 = 0 ∧ micro = 0 then [] else ':' :: Text.padded 2 (seconds % 60)) ++
    if micro = 0 then [] else '.' :: Text.padded 6 micro

def text (t : DateTime) : String :=
  String.ofList (t.wall.fields ++ (t.offset.map offsetText).getD [])

end DateTime

end RecordStore
