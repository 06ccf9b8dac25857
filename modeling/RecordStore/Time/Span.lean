import RecordStore.Number.Binary64
import RecordStore.Time.Instant

/-! Durations as counts of units, and their ISO 8601 texts. Counts are 32-bit words and wrap. A
fraction goes on to smaller units: all are cut off but the last that a unit reaches, which is
rounded. -/
namespace RecordStore

structure Span where
  years : UInt32 := 0
  months : UInt32 := 0
  weeks : UInt32 := 0
  days : UInt32 := 0
  hours : UInt32 := 0
  minutes : UInt32 := 0
  seconds : UInt32 := 0
  micros : UInt32 := 0
deriving DecidableEq

namespace Span

def isCalendrical (s : Span) : Bool := s.years ≠ 0 || s.months ≠ 0

def countsDays (s : Span) : Bool := s.isCalendrical || s.weeks ≠ 0 || s.days ≠ 0

def monthCount (s : Span) : Nat := 12 * s.years.toNat + s.months.toNat

def fixedMicros (s : Span) : Nat :=
  let days := 7 * s.weeks.toNat + s.days.toNat
  let seconds := 3600 * s.hours.toNat + 60 * s.minutes.toNat + s.seconds.toNat
  days * microsPerDay + seconds * microsPerSecond + s.micros.toNat

/-- Microseconds of all units, with 365 days to a year and 30 to a month. -/
def nominalMicros (s : Span) : Nat :=
  (365 * s.years.toNat + 30 * s.months.toNat) * microsPerDay + s.fixedMicros

/-- A number that is being read; behind a mark its fraction, as digits and a power of ten. -/
structure Amount where
  whole : UInt32 := 0
  fraction : Option (Binary64 × Binary64) := none

def natural (n : Nat) : Binary64 := Binary64.nearest false (n * Binary64.one) 1

namespace Amount

def push (digit : Nat) (a : Amount) : Amount :=
  match a.fraction with
  | none => { a with whole := 10 * a.whole + digit.toUInt32 }
  | some (digits, power) =>
    let ten := natural 10
    { a with fraction := some ((ten.mul digits).add (natural digit), ten.mul power) }

def rest (a : Amount) : Binary64 :=
  match a.fraction with
  | none => natural 0
  | some (digits, power) => digits.div power

end Amount

/-- So many units as a fraction of a larger one makes, cut off, and the fraction of one that is
left. -/
def cut (fraction : Binary64) (units : Nat) : UInt32 × Binary64 :=
  match fraction.mul (natural units) with
  | .finite s u h =>
    let n := u / Binary64.one
    (n.toUInt32, (Binary64.finite s u h).sub (natural n))
  | _ => (0, natural 0)

def rounded (fraction : Binary64) (units : Nat) : UInt32 :=
  match fraction.mul (natural units) with
  | .finite _ u _ => ((2 * u + Binary64.one) / (2 * Binary64.one)).toUInt32
  | _ => 0

/-- Takes in an amount of the unit with that letter, before or after the `T`. Larger units stand
before smaller ones that count; days, hours and minutes add up, other units take the last amount. -/
def add? (s : Span) (timed : Bool) (a : Amount) (unit : Char) : Option Span :=
  match timed, unit with
  | false, 'Y' =>
    if a.fraction.isSome || s.months ≠ 0 || s.days ≠ 0 then none
    else some { s with years := a.whole }
  | false, 'M' =>
    if a.fraction.isSome || s.days ≠ 0 then none else some { s with months := a.whole }
  | false, 'W' =>
    if s.isCalendrical then none
    else
      let (days, rest) := cut a.rest 7
      let (hours, rest) := cut rest 24
      some { s with
        weeks := a.whole
        days := s.days + days
        hours := s.hours + hours
        minutes := s.minutes + rounded rest 60 }
  | false, 'D' =>
    if s.weeks ≠ 0 then none
    else
      let (hours, rest) := cut a.rest 24
      some { s with
        days := s.days + a.whole
        hours := s.hours + hours
        minutes := s.minutes + rounded rest 60 }
  | true, 'H' =>
    if s.minutes ≠ 0 || s.seconds ≠ 0 || s.micros ≠ 0 then none
    else
      let (minutes, rest) := cut a.rest 60
      some { s with
        hours := s.hours + a.whole
        minutes := s.minutes + minutes
        seconds := s.seconds + rounded rest 60 }
  | true, 'M' =>
    if s.seconds ≠ 0 || s.micros ≠ 0 then none
    else
      let (seconds, rest) := cut a.rest 60
      some { s with
        minutes := s.minutes + a.whole
        seconds := s.seconds + seconds
        micros := s.micros + rounded rest microsPerSecond }
  | true, 'S' =>
    some { s with seconds := a.whole, micros := s.micros + rounded a.rest microsPerSecond }
  | _, _ => none

structure Scan where
  span : Span := {}
  timed : Bool := false
  /-- A fraction has been read, which ends the components. -/
  fractional : Bool := false
  amount : Option Amount := none

def Scan.step (s : Scan) (c : Char) : Option Scan :=
  if c.isDigit then some { s with amount := some ((s.amount.getD {}).push (c.toNat - 48)) }
  else match s.amount with
    | none => if c = 'T' ∧ !s.timed then some { s with timed := true } else none
    | some a =>
      if (c = '.' ∨ c = ',') ∧ a.fraction.isNone then
        some { s with amount := some { a with fraction := some (natural 0, natural 1) } }
      else if s.fractional then none
      else do
        let span ← s.span.add? s.timed a c
        return { span, timed := s.timed, fractional := a.fraction.isSome }

/-- The duration that a text denotes: `P`, and then components or a `T`. -/
def ofText? : List Char → Option Span
  | 'P' :: c :: rest => do
    let s ← (c :: rest).foldlM Scan.step {}
    if s.amount.isNone then some s.span else none
  | _ => none

example : ofText? "P1DT2H".toList = some { days := 1, hours := 2 } := by decide +kernel

end Span

end RecordStore
