import RecordStore.Time.Bucket
import RecordStore.Time.Reading
import RecordStore.Value.Basic

/-! Values as instants: clock readings, dates at midnight, and texts of timestamps. Values that
name a bucket of calendar units. -/
namespace RecordStore.Value

def toInstant [Present] : Value → Except TimeFault Instant
  | datetime t => TimeText.instantOf t
  | date d => .ok (.startOf d)
  | str s => TimeText.parseTimestamp s
  | v => .error (.notDateLike v.kind)

def isDateLike : Value → Bool
  | datetime _ => true
  | date _ => true
  | str _ => true
  | _ => false

def readingInstant : Value → Except TimeFault Instant
  | datetime t => TimeText.instantOf t
  | _ => .error .notReading

def unitCount : Value → Except TimeFault Int
  | num (.int i) => .ok i
  | bool b => .ok (if b then 1 else 0)
  | num (.float x) => .error (if x.isZero then .noUnits else .notWhole)
  | _ => .error .notWhole

/-- The start of the bucket around a clock reading, of so many units of that name. -/
def bucketStart (v unit count : Value) : Except TimeFault Instant := do
  let some unit := (match unit with
    | str name => CalendarUnit.ofName? name
    | _ => none) | throw .unknownUnit
  let t ← v.readingInstant
  t.calendarBucket unit (← count.unitCount)

end RecordStore.Value
