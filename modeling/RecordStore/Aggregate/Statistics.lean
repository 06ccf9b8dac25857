import RecordStore.Aggregate.GroupKey
import RecordStore.Value.Order

/-! Running statistics of fields. Each value is taken in once and none is kept but the extremes;
what is null or missing is passed over. -/
namespace RecordStore.Aggregate

structure Accumulator where
  count : Nat := 0
  sum : Num := .int 0
  /-- How many values the sum holds. -/
  summed : Nat := 0
  /-- The first least and the first greatest value. -/
  extremes : Option (Value × Value) := none

namespace Accumulator

def fault {α : Type} (field : Value) (f : RecordFault) : Except RecordError α :=
  .error (.mismatch f { field })

/-- The new extremes, and the fault if the value is not comparable with one of them. -/
def widen (field : Value) (v : Value) : Option (Value × Value) →
    Option (Value × Value) × Except RecordError Unit
  | none => (some (v, v), .ok ())
  | some (least, greatest) =>
    match v.lt? least with
    | none => (some (least, greatest), fault field (.incomparable v.kind least.kind))
    | some less =>
      let least := if less then v else least
      match greatest.lt? v with
      | none => (some (least, greatest), fault field (.incomparable v.kind least.kind))
      | some more => (some (least, if more then v else greatest), .ok ())

def addTo (field : Value) (a : Accumulator) : Value → Except RecordError Accumulator
  | .num n => match a.sum.add n with
    | some sum => .ok { a with sum, summed := a.summed + 1 }
    | none => .error .numberTooLarge
  | v => fault field (.average v.kind)

/-- Takes a value in. What was done before a fault stays done. -/
def ingest (field : Value) (request : StatRequest) (a : Accumulator) (v : Value) :
    Accumulator × Except RecordError Unit :=
  if v.isAbsent then (a, .ok ())
  else
    let counted := { a with count := a.count + 1 }
    match if request.avg then addTo field counted v else .ok counted with
    | .error e => (counted, .error e)
    | .ok summed =>
      if request.min || request.max then
        let (extremes, outcome) := widen field v a.extremes
        ({ summed with extremes }, outcome)
      else (summed, .ok ())

/-- The statistics asked for; what needs a value is left out if there was none. -/
def render (request : StatRequest) (a : Accumulator) : Except RecordError Record := do
  let count : Record := if request.count then [("count", .int a.count)] else []
  let avg : Record ← if request.avg && a.summed ≠ 0 then
      match a.sum.divCount a.summed with
      | some mean => .ok [("avg", .float mean)]
      | none => .error .numberTooLarge
    else .ok []
  let extreme (wanted : Bool) (name : String) (pick : Value × Value → Value) : Record :=
    if wanted then given name (a.extremes.map pick) else []
  return count ++ avg ++ extreme request.min "min" Prod.fst ++ extreme request.max "max" Prod.snd

end Accumulator

abbrev Accumulators := List (String × StatRequest × Accumulator)

namespace Accumulators

def start (stats : Stats) : Accumulators := stats.map fun (field, request) => (field, request, {})

/-- Takes a record in, field by field up to the first fault. -/
def ingest (record : Value) : Accumulators → Accumulators × Except RecordError Unit
  | [] => ([], .ok ())
  | (field, request, a) :: rest =>
    match record.get (Path.ofText field) with
    | .error f => ((field, request, a) :: rest, .error (.path f))
    | .ok v =>
      match a.ingest (.str field) request v with
      | (a, .error e) => ((field, request, a) :: rest, .error e)
      | (a, .ok ()) =>
        let (rest, outcome) := ingest record rest
        ((field, request, a) :: rest, outcome)

def render (as : Accumulators) : Except RecordError (List (String × Record)) :=
  as.mapM fun (field, request, a) => do return (field, ← a.render request)

end Accumulators

end RecordStore.Aggregate
