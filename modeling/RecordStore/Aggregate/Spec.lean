import RecordStore.Options.Reading
import RecordStore.Time.Bucket
import RecordStore.Value.Equality

/-! What an aggregate asks for, in full: the clauses that make up a group's key, the statistics of
each field, and whether records are counted. `Spec.toWire` gives the request that says the same. -/
namespace RecordStore.Aggregate

inductive Statistic where
  | count
  | avg
  | min
  | max
deriving DecidableEq

namespace Statistic

def all : List Statistic := [count, avg, min, max]

def name : Statistic → String
  | count => "count"
  | avg => "avg"
  | min => "min"
  | max => "max"

def ofName? (s : String) : Option Statistic := all.find? fun k => k.name = s

end Statistic

/-- The statistics of one field; extensions are passed on under their own names. -/
structure StatRequest where
  count : Bool := false
  avg : Bool := false
  min : Bool := false
  max : Bool := false
  extensions : Record := []
deriving DecidableEq

namespace StatRequest

def wants (r : StatRequest) : Statistic → Bool
  | .count => r.count
  | .avg => r.avg
  | .min => r.min
  | .max => r.max

def switch (r : StatRequest) (b : Bool) : Statistic → StatRequest
  | .count => { r with count := b }
  | .avg => { r with avg := b }
  | .min => { r with min := b }
  | .max => { r with max := b }

def requested (r : StatRequest) : List Statistic := Statistic.all.filter r.wants

def toWire (r : StatRequest) : Record :=
  (r.requested.map fun k => (.text k.name, .bool true)) ++ r.extensions

/-- Reads the four flags strictly; every other member is an extension. -/
def read (ms : Record) : Except (List Options.Problem) StatRequest :=
  let flag (k : Statistic) := Options.field ms k.name [] false Options.strictBool
  let problems := Statistic.all.flatMap fun k => (flag k).problems
  if problems = [] then
    .ok ⟨(flag .count).value, (flag .avg).value, (flag .min).value, (flag .max).value,
      ms.filter fun (k, _) => (Statistic.ofName? k.reading).isNone⟩
  else .error problems

end StatRequest

abbrev Stats := List (String × StatRequest)

/-- Values from `start` on and below `finish`; without a bound on a side that it lacks. -/
structure Range (α : Type) where
  start : Option α
  finish : Option α
deriving DecidableEq

inductive Grouping where
  | discrete
  | numberRanges (ranges : List (Range Num))
  | timeRanges (ranges : List (Range Instant))
  | numberInterval (step : Num) (base : Option Num)
  /-- The text of the duration is kept as it was given; the step is its microseconds. -/
  | timeInterval (text : String) (step : Int) (base : Option Instant)
  | calendar (unit : CalendarUnit) (count : Nat)
deriving DecidableEq

structure Clause where
  field : String
  grouping : Grouping
deriving DecidableEq

structure Spec where
  clauses : Option (List Clause)
  stats : Stats
  total : Bool
  /-- Members of the request that mean nothing here. -/
  extra : Record
deriving DecidableEq

def numberWire (n : Num) : Value := .num n
def instantWire (t : Instant) : Value := .str t.text

def given (name : String) (v : Option Value) : Record := (v.map fun w => (.text name, w)).toList

def Range.toWire {α : Type} (wire : α → Value) (r : Range α) : Value :=
  .object (given "start" (r.start.map wire) ++ given "end" (r.finish.map wire))

namespace Grouping

def mode : Grouping → String
  | discrete => "discrete"
  | numberRanges _ | timeRanges _ => "ranges"
  | numberInterval .. | timeInterval .. => "interval"
  | calendar .. => "time_component"

/-- Whether ranges or intervals are of time; the other ways have no such choice. -/
def temporal? : Grouping → Option Bool
  | discrete | calendar .. => none
  | numberRanges _ | numberInterval .. => some false
  | timeRanges _ | timeInterval .. => some true

def toWire : Grouping → Record
  | discrete => []
  | numberRanges rs => [("ranges", .list (rs.map (·.toWire numberWire)))]
  | timeRanges rs => [("ranges", .list (rs.map (·.toWire instantWire)))]
  | numberInterval step base => ("interval", .num step) :: given "base" (base.map numberWire)
  | timeInterval text _ base => ("interval", .str text) :: given "base" (base.map instantWire)
  | calendar unit count => [("timeComponent", .str unit.name), ("timeComponentCount", .int count)]

end Grouping

def Clause.toWire (c : Clause) : Value := .object (("field", .str c.field) :: c.grouping.toWire)

def Stats.toWire (stats : Stats) : Value :=
  .object (stats.map fun (path, request) => (path, .object request.toWire))

namespace Spec

def isGroup (s : Spec) : Bool := s.clauses.isSome

def members (s : Spec) : Record :=
  given "groupBy" (s.clauses.map fun cs => .list (cs.map Clause.toWire)) ++
    given "stats" (if s.stats = [] then none else some s.stats.toWire) ++
    given "total" (if s.total then some (.bool true) else none)

def toWire (s : Spec) : Value := .object (Record.putAll s.members s.extra)

end Spec

end RecordStore.Aggregate
