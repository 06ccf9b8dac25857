import RecordStore.Text.Digit
import RecordStore.Time.Fault
import RecordStore.Time.Iso

/-! Timestamps outside ISO 8601: a year with month and day, which slashes, colons or nothing may
separate, and hours, minutes and seconds of one digit or two. Their digits may be of any script, and
a date or time of day that there is not is refused for what is wrong with it. -/
namespace RecordStore.Loose

def numeral? (width : Nat) (cs : List Char) : Option (Nat × List Char) := do
  if cs.length < width then none
  else
    let ds ← (cs.take width).mapM Text.decimalValue?
    return (ds.foldl (fun n d => 10 * n + d) 0, cs.drop width)

def short? (cs : List Char) : Option (Nat × List Char) := (numeral? 2 cs).or (numeral? 1 cs)

/-- A time of day; without a minute it makes no sense. -/
structure Clock where
  hour : Nat
  minute : Option Nat
  second : Nat
  micros : Nat

/-- A fraction of a second of up to nine digits, in microseconds. -/
def fraction? : List Char → Option Nat
  | [] => some 0
  | mark :: ds =>
    if (mark = '.' ∨ mark = ',' ∨ mark = '|') ∧ ds ≠ [] ∧ ds.length ≤ 9 then do
      let ds ← ds.mapM Text.decimalValue?
      return ((ds ++ List.replicate 6 0).take 6).foldl (fun n d => 10 * n + d) 0
    else none

def clock? (cs : List Char) : Option (Option Clock) :=
  if cs = [] then some none
  else do
    let cs := if cs.head? = some ' ' then cs.drop 1 else cs
    let (hour, ':' :: rest) ← short? cs | none
    let (minute, rest) := match short? rest with
      | some (m, rest) => (some m, rest)
      | none => (none, rest)
    let (second, rest) ← match rest with
      | ':' :: rest => short? rest
      | rest => some (0, rest)
    return some ⟨hour, minute, second, ← fraction? rest⟩

def dropMark (cs : List Char) : List Char :=
  if cs.head? = some '/' ∨ cs.head? = some ':' then cs.drop 1 else cs

/-- Year, month and day with a time of day; else a year alone; else a time of day alone. -/
def parts? (cs : List Char) : Option (Option Civil × Option Clock) :=
  let full := do
    let (year, rest) ← numeral? 4 cs
    let (month, rest) ← numeral? 2 (dropMark rest)
    let (day, rest) ← numeral? 2 (dropMark rest)
    return (some (Civil.mk year month day), ← clock? rest)
  let yearly := do
    let (year, rest) ← numeral? 4 cs
    return (some (Civil.mk year 1 1), ← clock? rest)
  full.or (yearly.or (do return (none, ← clock? cs)))

def dateOf (c : Civil) : Except TimeFault Date :=
  match Date.ofCivil? c with
  | some d => .ok d
  | none => .error (.impossible
    (if c.year = 0 then .year 0 else if 1 ≤ c.month ∧ c.month ≤ 12 then .day else .month))

def Clock.timeOfDay (k : Clock) (minute : Nat) : Except TimeFault Nat :=
  if 24 ≤ k.hour then .error (.impossible .hour)
  else if 60 ≤ minute then .error (.impossible .minute)
  else if 60 ≤ k.second then .error (.impossible .second)
  else .ok ((3600 * k.hour + 60 * minute + k.second) * microsPerSecond + k.micros)

def readingOf (c : Civil) (k : Clock) : Except TimeFault Iso.Form := do
  let some minute := k.minute | throw .noMinute
  let d ← dateOf c
  match Instant.ofMicros? (d.day * microsPerDay + (← k.timeOfDay minute)) with
  | some wall => return .reading ⟨wall, some 0⟩
  | none => throw .outOfRange

def read? (cs : List Char) : Option (Except TimeFault Iso.Form) :=
  match parts? cs with
  | some (some c, none) => some ((dateOf c).map .date)
  | some (some c, some k) => some (readingOf c k)
  | some (none, some k) => match k.minute with
    | none => some (.error .noMinute)
    | some minute => match k.timeOfDay minute with
      | .error f => some (.error f)
      | .ok micros => some (.ok (.clock micros))
  | _ => none

end RecordStore.Loose
