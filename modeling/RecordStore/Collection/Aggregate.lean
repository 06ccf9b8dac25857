import RecordStore.Aggregate.Outcome
import RecordStore.Collection.Find

/-! Aggregates of a collection: they read its stream of matching documents. -/
namespace RecordStore.Collection

open Aggregate

def readSpec [Present] (request : Value) : Action Spec := do
  ofExcept ((Aggregate.Request.given request).spec (← get).options.aggregate)

def readStream [Present] (start : Except Failure Run) (s : Stream Feed) : Action Outcome := do
  return (← withStream s (Aggregate.runAwaiting start (Stream.handle Feed.source))).1

def aggregate [Present] (query : Query) (request options : Value) : Action Result := do
  match (← get).backend with
  | .bare | .feed _ => unsupported "aggregate"
  | _ =>
    let spec ← readSpec request
    let s ← openStream query {}
    let outcome ← readStream (begin (.ok spec) (optionsOf options)) s
    if let some n := outcome.partialOf then note (.partialResult n)
    ofExcept outcome.result

def aggregateAll [Present] (query : Query) (requests options : Value) :
    Action (List (String × Result)) := do
  (← ofExcept requests.members).entries.mapM fun (name, request) => do
    return (name, ← aggregate query request options)

end RecordStore.Collection
