import RecordStore.Aggregate.Request
import RecordStore.Aggregate.Statistics
import RecordStore.Value.Sort

/-! Running an aggregate over records, one at a time, into statistics over all of them or into
groups in the order in which they first come up. -/
namespace RecordStore.Aggregate

structure Group where
  key : List Value
  total : Nat
  stats : Accumulators

/-- What a run has for options. Any value but an object stands as it is, and fails only when it is
asked for an option. -/
inductive RunOptions where
  | read (o : AggregateOptions)
  | unread (v : Value)

namespace RunOptions

def read? : RunOptions → Option AggregateOptions
  | read o => some o
  | unread _ => none

/-- Whether an order or a limit is asked for. Lists come with an order of their own; other values
cannot tell. -/
def presents? : RunOptions → Option Bool
  | read o => some (o.sort ≠ [] || o.limit.isSome)
  | unread (.list _) => some true
  | unread _ => none

end RunOptions

structure Run where
  spec : Spec
  options : RunOptions
  seen : Nat := 0
  groups : List Group := []
  stats : Accumulators

/-- One group of a result; the statistics are there if any were asked for. -/
structure Entry where
  key : List Value
  stats : Option (List (String × Record))
  total : Option Nat

inductive Result where
  | totals (members : Record)
  | groups (entries : List Entry)

def statsValue (stats : List (String × Record)) : Value :=
  .object (stats.map fun (field, ms) => (field, .object ms))

def Entry.toValue (e : Entry) : Value :=
  .object ((.text "key", .list e.key) :: given "stats" (e.stats.map statsValue) ++
    given "total" (e.total.map fun n => .int n))

def Result.toValue : Result → Value
  | totals ms => .object ms
  | groups es => .list (es.map Entry.toValue)

/-- Names that a path into an entry may start with; any other looks into the statistics. -/
def entryNames : List String := ["key", "stats", "total"]

def Entry.get (e : Entry) (path : String) : Except Path.Fault Value := do
  let names := Path.ofText path
  match ← e.toValue.get names with
  | .missing =>
    if names.headD "" ∈ entryNames then return .missing
    else match e.stats with
      | some stats => (statsValue stats).get names
      | none => return .missing
  | v => return v

/-- A fault of the values under a sort path, or of a path itself. -/
def sortEntries (paths : List String) (es : List Entry) : Except RecordError (List Entry) :=
  match sortByKeys Entry.get (paths.map SortKey.ofText) es with
  | .ok sorted => .ok sorted
  | .error .incomparable | .error .notKey => .error (.mismatch (.unsortable paths) {})
  | .error (.path f) => .error (.path f)

/-- The first field that asks for statistics of other names, with these names in order. -/
def extensionStats? (stats : Stats) : Option (String × List String) :=
  (stats.find? fun (_, r) => r.extensions ≠ []).map fun (field, r) =>
    (field, sortedNames r.extensions.keys)

namespace Run

def start (spec : Spec) (options : RunOptions) : Except Failure Run :=
  let run : Run := { spec, options, stats := .start spec.stats }
  match extensionStats? spec.stats, spec.clauses, options.presents? with
  | some (field, names), _, _ => .error (.domain { fault := .extensionStats names field })
  | none, none, some true => .error (.domain { fault := .spec .sortOrLimitInStats })
  | none, none, none => .error .lacksOperation
  | none, _, _ => .ok run

/-- The key of a record under clauses from a position on; none if one of them has no group. -/
def keyOf [Present] (record : Value) : Int → List Clause → Except RecordError (Option (List Value))
  | _, [] => .ok (some [])
  | index, c :: rest =>
    match record.get (Path.ofText c.field) with
    | .error f => .error (.path f)
    | .ok v => do
      match ← c.resolve (.int index) v with
      | none => return none
      | some part => return (← keyOf record (index + 1) rest).map (part :: ·)

def Group.add (record : Value) (g : Group) : Except RecordError Group :=
  match g.stats.ingest record with
  | (stats, .ok ()) => .ok { g with total := g.total + 1, stats }
  | (_, .error e) => .error e

/-- Adds a record to the group of its key, or to a new one at the end. -/
def addTo (fresh : Accumulators) (key : List Value) (record : Value) :
    List Group → Except RecordError (List Group)
  | [] => do return [← Group.add record ⟨key, 0, fresh⟩]
  | g :: rest =>
    if Value.sameKeys g.key key then do return (← Group.add record g) :: rest
    else do return g :: (← addTo fresh key record rest)

def feed [Present] (run : Run) (record : Value) : Except RecordError Run := do
  let run := { run with seen := run.seen + 1 }
  match run.spec.clauses with
  | none =>
    match run.stats.ingest record with
    | (stats, .ok ()) => return { run with stats }
    | (_, .error e) => .error e
  | some clauses =>
    match ← keyOf record 0 clauses with
    | none => return run
    | some key => return { run with groups := ← addTo run.stats key record run.groups }

def feedAll [Present] (run : Run) (records : List Value) : Except RecordError Run :=
  records.foldlM feed run

def entryOf (run : Run) (g : Group) : Except RecordError Entry := do
  let stats ← if run.spec.stats = [] then .ok none else some <$> g.stats.render
  return ⟨g.key, stats, if run.spec.total then some g.total else none⟩

def limited (limit : Option Int) (es : List Entry) : List Entry :=
  match limit with
  | some n => es.take n.toNat
  | none => es

/-- The total stands first; a field of its name takes its place. -/
def totals (run : Run) : Except RecordError Record := do
  let stats ← run.stats.render
  return Record.putAll (given "total" (if run.spec.total then some (.int run.seen) else none))
    (stats.map fun (field, ms) => (field, .object ms))

def render (run : Run) : Except RecordError Result :=
  match run.spec.clauses with
  | none => do return .totals (← run.totals)
  | some _ => do
    let es ← run.groups.mapM run.entryOf
    match run.options.read? with
    | some o => return .groups (limited o.limit (← sortEntries o.sort es))
    | none => .error .optionsUnreadable

end Run

end RecordStore.Aggregate
