import RecordStore.Aggregate.Run
import RecordStore.Source

/-! Aggregates over a source of records. The source is let go also when the aggregate cannot start,
and before there is an outcome. A source that someone else closes early gives, if the options say
so, the result of the records before. -/
namespace RecordStore.Aggregate

structure Outcome where
  result : Except Failure Result
  /-- Records behind a partial result. -/
  partialOf : Option Nat := none

/-- What to run: a request as it was given, or one that was read before. -/
inductive Request where
  | given (v : Value)
  | ready (spec : Spec)

def Request.spec [Present] (options : RequestOptions) : Request → Except Failure Spec
  | given v => (Spec.ofRequest options v).mapError SpecError.failure
  | ready spec => .ok spec

/-- Options as they were given: nothing stands for the usual ones. -/
def optionsOf : Value → Except Failure RunOptions
  | .null => .ok (.read {})
  | .object ms => ((AggregateOptions.read (.object ms)).map .read).mapError Failure.options
  | v => .ok (.unread v)

def begin (spec : Except Failure Spec) (options : Except Failure RunOptions) :
    Except Failure Run := do
  Run.start (← spec) (← options)

namespace Run

def step [Present] (run : Run) (record : Value) : Except Failure Run :=
  (run.feed record).mapError RecordError.failure

def result (run : Run) : Except Failure Result := run.render.mapError RecordError.failure

def conclude (run : Run) : Option Failure → Outcome
  | none => ⟨run.result, none⟩
  | some f =>
    if !f.isStreamClosed then ⟨.error f, none⟩
    else match run.options.read? with
      | none => ⟨.error .lacksOperation, none⟩
      | some o =>
        if o.allowPartial then ⟨run.result, some run.seen⟩
        else ⟨.error (.domain { fault := .closedEarly run.seen }), none⟩

end Run

section
variable {σ : Type}

def ofSource [Present] (src : Source σ) (start : Except Failure Run) (s : σ) : Outcome × σ :=
  match start with
  | .error f => (⟨.error f, none⟩, src.close s)
  | .ok run =>
    let ((run, failure), s) := src.fold Run.step run s
    (run.conclude failure, src.close s)

/-- Takes in what is read, if there is a way to go through the records. -/
def overReader [Present] (start : Except Failure Run) (reader : Option (Reader σ)) (s : σ) :
    Outcome × σ :=
  match start, reader with
  | .error f, _ => (⟨.error f, none⟩, s)
  | .ok _, none => (⟨.error .notIterable, none⟩, s)
  | .ok run, some r =>
    let ((run, failure), s) := (r.source id).fold Run.step run s
    (run.conclude failure, s)

/-- An aggregate that waits for nothing. Whatever comes of it, what the source has under `close` is
called, if it can be. -/
def runDirect [Present] (start : Except Failure Run) (h : Handle σ) (s : σ) : Outcome × σ :=
  let (outcome, s) := overReader start h.direct s
  (outcome, h.close.called s)

/-- An aggregate that waits for each record where the source can be gone through so, and otherwise
goes through it at once. Whatever comes of it, the source is let go. -/
def runAwaiting [Present] (start : Except Failure Run) (h : Handle σ) (s : σ) : Outcome × σ :=
  let (outcome, s) := overReader start (h.awaited.or h.direct) s
  (outcome, h.letGo s)

end

/-- The outcome over a source that has to be waited for, where nothing waits: once the run has
started, the source cannot be gone through. It is neither read nor let go. -/
def ofAwaited (start : Except Failure Run) : Outcome :=
  ⟨start.bind fun _ => .error .notIterable, none⟩

def ofRecords [Present] (start : Except Failure Run) (records : List Value) : Outcome :=
  (ofSource .ofList start records).1

end RecordStore.Aggregate
