import RecordStore.Time.Span

/-! Texts of dates, clock readings and durations in the forms of ISO 8601. A reader takes a whole
text or nothing. -/
namespace RecordStore.Iso

open Text (split breakAt asciiNumeral?)

inductive Form where
  | date (d : Date)
  | reading (t : DateTime)
  /-- A time of day without a date, in microseconds since midnight. -/
  | clock (micros : Nat)
  | span (s : Span)
deriving DecidableEq

def digits? (width : Nat) (cs : List Char) : Option Nat :=
  if cs.length = width then asciiNumeral? cs else none

def compactDate? (year : Nat) : List Char → Option Date
  | 'W' :: week => match week with
    | [a, b] => do Date.ofWeek? year (← digits? 2 [a, b]) 1
    | [a, b, c] => do Date.ofWeek? year (← digits? 2 [a, b]) (← digits? 1 [c])
    | _ => none
  | [a, b, c] => do Date.ofOrdinal? year (← digits? 3 [a, b, c])
  | [a, b, c, d] => do Date.ofCivil? ⟨year, ← digits? 2 [a, b], ← digits? 2 [c, d]⟩
  | _ => none

/-- What follows the year in a date with dashes, piece by piece. -/
def dashedDate? (year : Nat) : List (List Char) → Option Date
  | ['W' :: week] => do Date.ofWeek? year (← digits? 2 week) 1
  | ['W' :: week, day] => do Date.ofWeek? year (← digits? 2 week) (← digits? 1 day)
  | [[a, b]] => do Date.ofCivil? ⟨year, ← digits? 2 [a, b], 1⟩
  | [[a, b, c]] => do Date.ofOrdinal? year (← digits? 3 [a, b, c])
  | [month, day] => do Date.ofCivil? ⟨year, ← digits? 2 month, ← digits? 2 day⟩
  | _ => none

/-- A date other than a bare year, and whether it is written without separators. -/
def date? (cs : List Char) : Option (Date × Bool) :=
  match split '-' cs with
  | [year] => do return (← compactDate? (← digits? 4 (year.take 4)) (year.drop 4), true)
  | year :: rest => do return (← dashedDate? (← digits? 4 year) rest, false)
  | [] => none

/-- Microseconds of a fraction of a second; further digits are dropped. -/
def fractionMicros? (ds : List Char) : Option Nat :=
  if ds ≠ [] ∧ ds.all Char.isDigit then asciiNumeral? ((ds ++ List.replicate 6 '0').take 6)
  else none

/-- Seconds with an optional fraction after a point or a comma, in microseconds. -/
def seconds? (cs : List Char) : Option Nat :=
  match breakAt (fun c => c = '.' || c = ',') cs with
  | (whole, []) => do
    let s ← digits? 2 whole
    if s < 60 then return s * microsPerSecond else none
  | (whole, _ :: fraction) => do
    let s ← digits? 2 whole
    if s < 60 then return s * microsPerSecond + (← fractionMicros? fraction) else none

def hourMinute? (hour minute : List Char) : Option Nat := do
  let h ← digits? 2 hour
  let m ← digits? 2 minute
  if h < 24 ∧ m < 60 then return (h * 3600 + m * 60) * microsPerSecond else none

/-- Microseconds since midnight. What follows a compact date has no colon before its seconds, and
what follows any other date has colons throughout. -/
def timeOfDay? (compact : Bool) (cs : List Char) : Option Nat :=
  match split ':' cs with
  | [hour, minute] => hourMinute? hour minute
  | [hour, minute, second] =>
    if compact then none else do return (← hourMinute? hour minute) + (← seconds? second)
  | [hour] =>
    if hour.length = 2 then hourMinute? hour ['0', '0']
    else if compact then
      let minute := (hour.drop 2).take 2
      let second := hour.drop 4
      if second = [] then hourMinute? (hour.take 2) minute
      else do return (← hourMinute? (hour.take 2) minute) + (← seconds? second)
    else none
  | _ => none

/-- An offset in microseconds, no more than a day ahead: none written and `Z` are universal time. -/
def offset? : List Char → Option Int
  | [] | ['Z'] => some 0
  | sign :: body =>
    if sign = '+' ∨ sign = '-' then do
      let (hour, minute) ← match body with
        | [a, b] | [a, b, ':'] => some ([a, b], ['0', '0'])
        | [a, b, c, d] | [a, b, ':', c, d] => some ([a, b], [c, d])
        | _ => none
      let seconds := (← digits? 2 hour) * 3600 + (← digits? 2 minute) * 60
      let micros : Int := seconds * microsPerSecond
      if sign = '-' then return -micros
      else if micros ≤ microsPerDay then return micros
      else none
    else none

def clock? (compact : Bool) (cs : List Char) : Option (Nat × Int) := do
  let (time, zone) := breakAt (fun c => c = 'Z' || c = '+' || c = '-') cs
  return (← timeOfDay? compact time, ← offset? zone)

/-- A date, or a date with `T` or a blank, a time of day and an offset. -/
def stamp? (cs : List Char) : Option Form :=
  match breakAt (fun c => c = 'T' || c = ' ') cs with
  | (date, []) => (date? date).map fun (d, _) => .date d
  | (date, _ :: rest) => do
    let (d, compact) ← date? date
    let (micros, offset) ← clock? compact rest
    let wall ← Instant.ofMicros? (d.day * microsPerDay + micros)
    return .reading ⟨wall, some offset⟩

/-- What a text denotes: durations start with `P`, and times of day with `T` or an hour before a
colon. -/
def form? (cs : List Char) : Option Form :=
  match cs with
  | 'P' :: _ => (Span.ofText? cs).map .span
  | 'T' :: rest => (clock? true rest).map fun (micros, _) => .clock micros
  | _ :: _ :: ':' :: _ => (clock? false cs).map fun (micros, _) => .clock micros
  | _ => stamp? cs

end RecordStore.Iso
