import RecordStore.Text.Split

/-! The proleptic Gregorian calendar of the years 1 to 9999. Dates are counted from Monday,
1 January of year 1, which is day 0. -/
namespace RecordStore

structure Civil where
  year : Nat
  month : Nat
  day : Nat
deriving DecidableEq

namespace Calendar

/-- Number of days of the years 1 to 9999. -/
def dayCount : Nat := 3652059

def isLeap (year : Nat) : Bool :=
  year % 4 == 0 && (year % 100 != 0 || year % 400 == 0)

def daysBeforeYear (year : Nat) : Nat :=
  let past := year - 1
  365 * past + past / 4 - past / 100 + past / 400

def monthLengths (leap : Bool) : List Nat :=
  [31, if leap then 29 else 28, 31, 30, 31, 30, 31, 31, 30, 31, 30, 31]

def daysInMonth (year month : Nat) : Nat :=
  (monthLengths (isLeap year)).getD (month - 1) 0

def daysBeforeMonth (year month : Nat) : Nat :=
  ((monthLengths (isLeap year)).take (month - 1)).foldl (· + ·) 0

def daysInYear (year : Nat) : Nat := if isLeap year then 366 else 365

/-- Day number of a date, counting on from the first of the month. -/
def dayNumber (c : Civil) : Nat :=
  daysBeforeYear c.year + daysBeforeMonth c.year c.month + (c.day - 1)

def Valid (c : Civil) : Prop :=
  1 ≤ c.year ∧ c.year ≤ 9999 ∧ 1 ≤ c.month ∧ c.month ≤ 12 ∧
    1 ≤ c.day ∧ c.day ≤ daysInMonth c.year c.month

instance (c : Civil) : Decidable (Valid c) := inferInstanceAs (Decidable (_ ∧ _))

/-- The year of a day: the average length of a year gives it up to one. -/
def yearOf (day : Nat) : Nat :=
  let guess := day * 400 / 146097 + 1
  if day < daysBeforeYear guess then guess - 1
  else if daysBeforeYear (guess + 1) ≤ day then guess + 1 else guess

def monthAndDay : List Nat → Nat → Nat → Nat × Nat
  | [], month, day => (month, day + 1)
  | length :: rest, month, day =>
    if day < length then (month, day + 1) else monthAndDay rest (month + 1) (day - length)

def civilOf (day : Nat) : Civil :=
  let year := yearOf day
  let (month, dayOfMonth) := monthAndDay (monthLengths (isLeap year)) 1 (day - daysBeforeYear year)
  ⟨year, month, dayOfMonth⟩

def firstMonday (year : Nat) : Nat :=
  let fourth := daysBeforeYear year + 3
  fourth - fourth % 7

def weeksInYear (year : Nat) : Nat := (firstMonday (year + 1) - firstMonday year) / 7

end Calendar

structure Date where
  day : Nat
  inRange : day < Calendar.dayCount
deriving DecidableEq

namespace Date

def ofDay? (day : Nat) : Option Date :=
  if h : day < Calendar.dayCount then some ⟨day, h⟩ else none

def ofCivil? (c : Civil) : Option Date :=
  if Calendar.Valid c then ofDay? (Calendar.dayNumber c) else none

def ofOrdinal? (year n : Nat) : Option Date :=
  if 1 ≤ year ∧ 1 ≤ n ∧ n ≤ Calendar.daysInYear year then
    ofDay? (Calendar.daysBeforeYear year + (n - 1))
  else none

/-- A weekday, from Monday as 1, of a numbered week of a year. Week 0 is the one before the first,
and day 0 the day before Monday. -/
def ofWeek? (year week weekday : Nat) : Option Date :=
  let day := Calendar.firstMonday year + 7 * week + weekday
  if 1 ≤ year ∧ week ≤ Calendar.weeksInYear year ∧ weekday ≤ 7 ∧ 8 ≤ day then ofDay? (day - 8)
  else none

def civil (d : Date) : Civil := Calendar.civilOf d.day

def text (d : Date) : List Char :=
  let c := d.civil
  Text.padded 4 c.year ++ '-' :: Text.padded 2 c.month ++ '-' :: Text.padded 2 c.day

end Date

end RecordStore
