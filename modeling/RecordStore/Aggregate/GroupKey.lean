import RecordStore.Aggregate.Spec
import RecordStore.Fault
import RecordStore.Value.Path
import RecordStore.Value.Time

/-! The key of the group that a value belongs to under a clause. Nothing belongs to no group. -/
namespace RecordStore.Aggregate

/-- What goes wrong with records and their result: a value that does not fit the request, one beyond
what can be counted or dated, or options that are none. -/
inductive RecordError where
  | mismatch (fault : RecordFault) (place : Location)
  | path (f : Path.Fault)
  | numberTooLarge
  | time (f : TimeFault)
  | optionsUnreadable

def RecordError.failure : RecordError → Failure
  | mismatch fault place => DomainError.failure { fault := .record fault, location := place }
  | path _ => .unreadablePosition
  | numberTooLarge => .numberTooLarge
  | time f => .time f
  | optionsUnreadable => .lacksOperation

/-- Position in a sorted row behind the last entry that is not above the point: from `low` up to
`high` the half that cannot hold it is dropped. -/
def bisect {α : Type} (lt : α → α → Bool) (row : Array α) (point : α) (low high : Nat) : Nat :=
  if low < high then
    let middle := (low + high) / 2
    match row[middle]? with
    | some entry =>
      if lt point entry then bisect lt row point low middle
      else bisect lt row point (middle + 1) high
    | none => low
  else low
termination_by high - low

/-- Index of the range that holds a point: found by the ends, confirmed by its start. -/
def lookup {α : Type} (lt : α → α → Bool) (ranges : List (Range α)) (point : α) : Option Nat :=
  let ends := (ranges.filterMap (·.finish)).toArray
  let index := bisect lt ends point 0 ends.size
  match ranges[index]? with
  | none => none
  | some r => match r.start with
    | some s => if lt point s then none else some index
    | none => some index

/-- The key of a bucket of numbers. Binary64 rounding can leave it one bucket off; it is moved back
once. -/
def bucketNumber? (base step value : Num) : Option Num := do
  let index ← (← value.sub base).floorDiv step
  let key ← base.add (← index.mul step)
  let key ← if value.lt key then key.sub step
    else (key.add step).map fun next => if next.le value then next else key
  return if base.isInt && step.isInt then key.integral else key

namespace Clause

def number (place : Location) : Value → Except RecordError Num
  | .num n => .ok n
  | v => .error (.mismatch (.notNumber v.kind) place)

def instant [Present] (place : Location) (v : Value) : Except RecordError Instant :=
  match v.toInstant with
  | .ok t => .ok t
  | .error f => .error (if f.isMismatch then .mismatch (.notInstant v) place else .time f)

def instantKey : Option Instant → Except RecordError (Option Value)
  | some t => .ok (some (.str t.text))
  | none => .error (.time .outOfRange)

def indexKey (i : Option Nat) : Option Value := i.map fun n => .int n

def keyOf [Present] (place : Location) (v : Value) : Grouping → Except RecordError (Option Value)
  | .discrete =>
    if v.holdsByteArray then .error (.mismatch (.noKey v.kind) place) else .ok (some v)
  | .numberRanges rs => do return indexKey (lookup Num.lt rs (← number place v))
  | .timeRanges rs => do
    return indexKey (lookup (fun t u => t.micros < u.micros) rs (← instant place v))
  | .numberInterval step base => do
    match bucketNumber? (base.getD (.int 0)) step (← number place v) with
    | some key => return some (.num key)
    | none => .error .numberTooLarge
  | .timeInterval _ step base => do
    instantKey (Instant.bucket? (base.getD .epoch) step (← instant place v))
  | .calendar unit count => do
    match (← instant place v).calendarBucket unit count with
    | .ok t => return some (.str t.text)
    | .error f => .error (.time f)

/-- The key of a value under the clause at that position; none if it belongs to no group. -/
def resolve [Present] (c : Clause) (index : Value) (v : Value) :
    Except RecordError (Option Value) :=
  if v.isAbsent then .ok none else keyOf { field := .str c.field, clause := index } v c.grouping

end Clause

end RecordStore.Aggregate
