import RecordStore.DriverError
import RecordStore.Json.Reader
import RecordStore.Options.Reading
import RecordStore.Time.Fault
import RecordStore.Value.Text

/-! What can be wrong with a request, with records, or with an operation on a collection, and how
it is worded. -/
namespace RecordStore

inductive SpecFault where
  | notObject (kind : String)
  | unknownKeys (keys : List String)
  | totalNotBool
  | unknownType (v : Value)
  | groupByMissing
  | groupByInStats
  | nothingRequested
  | statsEntry (v : Value)
  | statsForm (v : Value)
  | statForm (v : Value)
  | statFlag (name : String)
  | unknownStat (name : String)
  | nothingEnabled
  | groupByForm
  | clauseForm (v : Value)
  | clauseKeys (keys : List String)
  | combinedModes (modes : List String)
  | baseWithoutInterval
  | countWithoutUnit
  | rangesForm
  | rangeKeys (keys : List String)
  | mixedForms
  | mixedBoundaries
  | boundary (v : Value)
  | unsortedRanges
  | startOmitted
  | endOmitted
  | intervalForm
  | intervalNotPositive
  | numericBase
  | duration (text : String) (cause : TimeFault)
  | timestampBase
  | baseText (v : Value)
  | unknownUnit (choices : List String)
  | unitCount
  | fieldForm (v : Value)
  | emptySegment
  | sortOrLimitInStats

def SpecFault.detail : SpecFault → String
  | notObject kind => s!"aggregate spec must be an object, got {kind}"
  | unknownKeys keys => s!"unknown aggregate keys: {Value.listText keys}"
  | totalNotBool => "'total' must be a boolean"
  | unknownType v => s!"unknown aggregate type {v.text}; expected 'stats' or 'group'"
  | groupByMissing => "group aggregate requires 'groupBy'"
  | groupByInStats => "stats aggregate must not contain 'groupBy'"
  | nothingRequested => "stats aggregate requires at least one stats field or 'total'"
  | statsEntry v => s!"stats field list entries must be strings, got {v.text}"
  | statsForm v => s!"'stats' must be a field path, a list or an object, got {v.text}"
  | statForm v => s!"stat request must be true or an object, got {v.text}"
  | statFlag name => s!"stat flag {Text.quoted name} must be a boolean"
  | unknownStat name => s!"unknown stat type {Text.quoted name}"
  | nothingEnabled => "stat request does not enable any statistic"
  | groupByForm => "'groupBy' must be a field path, a clause, or a non-empty list of clauses"
  | clauseForm v => s!"groupBy clause must be a field path or an object, got {v.text}"
  | clauseKeys keys => s!"unknown groupBy clause keys: {Value.listText keys}"
  | combinedModes modes =>
    s!"groupBy clause combines {Value.listText modes}; use exactly one grouping mode"
  | baseWithoutInterval => "'base' is only valid with 'interval'"
  | countWithoutUnit => "'timeComponentCount' is only valid with 'timeComponent'"
  | rangesForm => "'ranges' must be a non-empty list"
  | rangeKeys keys => s!"unknown range keys: {Value.listText keys}"
  | mixedForms =>
    "'ranges' must be all boundary values or all " ++ Value.braced "start, end" ++ " objects"
  | mixedBoundaries => "range boundaries mix numbers and timestamps"
  | boundary v => s!"range boundary {v.text} is neither a number nor an ISO-8601 timestamp"
  | unsortedRanges => "unsorted ranges"
  | startOmitted => "only the first range may omit 'start'"
  | endOmitted => "only the last range may omit 'end'"
  | intervalForm => "'interval' must be a number or an ISO-8601 duration"
  | intervalNotPositive => "'interval' must be greater than 0"
  | numericBase => "a numeric 'interval' requires a numeric 'base'"
  | duration text cause => s!"invalid duration {Text.quoted text}: {cause.text}"
  | timestampBase => "a duration 'interval' requires an ISO-8601 timestamp 'base'"
  | baseText v => s!"invalid base timestamp {v.text}"
  | unknownUnit choices => s!"'timeComponent' must be one of {Text.commas choices}"
  | unitCount => "'timeComponentCount' must be an integer >= 1"
  | fieldForm v => s!"field path must be a non-empty string, got {v.text}"
  | emptySegment => "field path has an empty segment"
  | sortOrLimitInStats => "sort and limit only apply to group aggregates"

/-- The values that the words for a fault show. -/
def SpecFault.quoted : SpecFault → List Value
  | unknownType v | statsEntry v | statsForm v | statForm v | clauseForm v | boundary v | baseText v
  | fieldForm v => [v]
  | _ => []

inductive RecordFault where
  | notNumber (kind : String)
  | notInstant (v : Value)
  | noKey (kind : String)
  | average (kind : String)
  | incomparable (kind other : String)
  | unsortable (paths : List String)

def RecordFault.detail : RecordFault → String
  | notNumber kind => s!"expected a number, got {kind}"
  | notInstant v => s!"expected a date or ISO-8601 timestamp, got {v.text}"
  | noKey kind => s!"cannot group by unhashable {kind} value"
  | average kind => s!"avg requires numbers, got {kind}"
  | incomparable kind other => s!"cannot compare {kind} with {other}"
  | unsortable paths => s!"cannot sort results by {Value.listText paths}"

def RecordFault.quoted : RecordFault → List Value
  | notInstant v => [v]
  | _ => []

/-- Part of a driver's work in which it failed. -/
inductive Phase where
  | read
  | write
deriving DecidableEq

def Phase.name : Phase → String
  | read => "read"
  | write => "write"

/-- Kinds of failures that callers tell apart. -/
inductive FaultKind where
  | general
  | unsupported
  | notFound
  | duplicate
  | connection
  | query
  | streamClosed
  | aggregate
  | invalidSpec
  | typeMismatch
  | interrupted
deriving DecidableEq

def FaultKind.isAggregate : FaultKind → Bool
  | aggregate | invalidSpec | typeMismatch | interrupted => true
  | _ => false

inductive Fault where
  /-- A fault in someone else's words. -/
  | stated (kind : FaultKind) (detail : Value)
  | spec (f : SpecFault)
  | record (f : RecordFault)
  /-- The source of an aggregate was closed after so many records. -/
  | closedEarly (records : Nat)
  | extensionStats (names : List String) (field : String)
  | notImplemented (operation : String)
  | noTotal
  | noMatch
  | notStored (keyField : String) (key : Value)
  | neverSaved
  | duplicateKey (keyField : String) (key : Value)
  | duplicateReported
  | connectionLost (phase : Phase)
  | readFailed
  | writeFailed
  | queryOperator (path : String)
  | filterKey (key : String)
  | cannotSort (sort : Value)
  | mixedUpdate
  | updateOperator (name : String)
  | increment (path : String)
  | streamClosed

namespace Fault

def kind : Fault → FaultKind
  | stated kind _ => kind
  | spec _ => .invalidSpec
  | record _ => .typeMismatch
  | closedEarly _ => .interrupted
  | extensionStats .. | notImplemented _ | noTotal => .unsupported
  | noMatch | notStored .. | neverSaved => .notFound
  | duplicateKey .. | duplicateReported => .duplicate
  | connectionLost _ => .connection
  | writeFailed => .general
  | readFailed | queryOperator _ | filterKey _ | cannotSort _ | mixedUpdate | updateOperator _
  | increment _ => .query
  | streamClosed => .streamClosed

def mixedUpdateText : String := "update expression mixes $-operators with plain fields"

def detail : Fault → String
  | stated _ detail => detail.reading
  | spec f => f.detail
  | record f => f.detail
  | closedEarly n => s!"record source closed after {n} records"
  | extensionStats names field =>
    s!"stat types [{Text.commas names}] on field {Text.quoted field}" ++
      " are not supported by the in-process engine"
  | notImplemented operation => s!"{operation}() is not implemented for this model"
  | noTotal => "Getting the total is not supported on this stream"
  | noMatch => "No document matches the query."
  | notStored keyField key => s!"No stored document with {keyField}={key.text}."
  | neverSaved => "Document was never saved."
  | duplicateKey keyField key => s!"A document with {keyField}={key.text} already exists."
  | duplicateReported => "A document with this key already exists."
  | connectionLost phase => s!"Database connection failed during {phase.name}."
  | readFailed => "Query execution failed."
  | writeFailed => "Database write failed."
  | queryOperator path =>
    s!"Query operator {Text.quoted path} is not supported; use field-path equality."
  | filterKey key => s!"Filter key '{key}' is not allowed: only field-path equality is supported."
  | cannotSort sort => s!"Cannot sort by {sort.reading}."
  | mixedUpdate => mixedUpdateText
  | updateOperator name => s!"Unsupported update operator {Text.quoted name}."
  | increment path => s!"$inc requires numbers at {Text.quoted path}."
  | streamClosed => "stream was closed before all documents were read"

def quoted : Fault → List Value
  | spec f => f.quoted
  | record f => f.quoted
  | notStored _ v | duplicateKey _ v | cannotSort v => [v]
  | _ => []

/-- Whether the fault can be put into words. -/
def isWritable (f : Fault) : Bool := f.quoted.all Value.isWritable

end Fault

/-- Field path and position of the clause that a fault of an aggregate is about; null for none. -/
structure Location where
  field : Value := .null
  clause : Value := .null
deriving DecidableEq

namespace Location

def ofField (path : String) : Location := { field := .str path }

def ofClause (index : Int) : Location := { clause := .int index }

def parts (l : Location) : List String :=
  (if l.field = .null then [] else [s!"field {l.field.text}"]) ++
    (if l.clause = .null then [] else [s!"groupBy clause {l.clause.reading}"])

def text (l : Location) : String :=
  if l.parts = [] then "" else s!" ({Text.commas l.parts})"

end Location

/-- A fault with the operation, the collection and the place where it came up; null for none. -/
structure DomainError where
  fault : Fault
  operation : Value := .str "aggregate"
  collection : Value := .null
  location : Location := {}
  /-- The error of a driver that is behind it, if there is one. -/
  cause : Option DriverError := none

namespace DomainError

def detail (e : DomainError) : String := e.fault.detail ++ e.location.text

def text (e : DomainError) : String :=
  let front := if e.collection.truthy then s!"[{e.collection.reading}] " else ""
  s!"{front}{e.operation.reading} failed: {e.detail}"

end DomainError

inductive Failure where
  | domain (e : DomainError)
  | time (f : TimeFault)
  | options (problems : List Options.Problem)
  | limitTooSmall (got : Value)
  | skipNegative (got : Value)
  | mixedUpdate
  /-- A listener of a point that cannot wait asked to be waited for. -/
  | awaitable (event : Value) (listener : String)
  | unsupportedClause (kind : String)
  | databaseMissing
  | listener (text : String)
  /-- An integer beyond the binary64 numbers met one of them. -/
  | numberTooLarge
  | unreadablePosition
  | incomparable
  /-- A value of another kind was to be gone through element by element. -/
  | notIterable
  /-- A value of another kind was asked for what only objects or texts have. -/
  | lacksOperation
  /-- What should be a name with its value is not two elements. -/
  | notPair
  /-- There is no element at a position. -/
  | noElement
  | notReadable
  | cancelled
  /-- Also an integer with more digits than a text may have, on its way into a message. -/
  | json (f : Json.Fault)

/-- What is raised for a fault; if it cannot be put into words, that an integer is too long. -/
def DomainError.failure (e : DomainError) : Failure :=
  if e.fault.isWritable then .domain e else .json .integerTooLong

namespace Failure

def message? : Failure → Option String
  | domain e => some e.text
  | time f => f.message?
  | options problems => some (Options.Problem.texts problems)
  | limitTooSmall got =>
    if got.isWritable then some s!"limit must be >= 1, got {got.text}" else none
  | skipNegative got =>
    if got.isWritable then some s!"skip must be >= 0, got {got.text}" else none
  | mixedUpdate => some Fault.mixedUpdateText
  | awaitable event name =>
    some s!"Hook {event.text} is synchronous; listener {name} returned an awaitable."
  | unsupportedClause kind => some s!"unsupported groupBy clause: {kind}"
  | databaseMissing => some
    ("MongoModel requires a Motor database instance. " ++
      "Pass it via the `database` constructor parameter.")
  | listener text => some text
  | _ => none

def isStreamClosed : Failure → Bool
  | domain e => e.fault.kind = .streamClosed
  | _ => false

end Failure

theorem DomainError.failure_of_writable {e : DomainError} (h : e.fault.isWritable) :
    e.failure = .domain e :=
  if_pos h

theorem DomainError.failure_eq_domain {e d : DomainError} :
    e.failure = .domain d ↔ e.fault.isWritable ∧ e = d := by
  unfold failure
  split <;> simp_all

theorem DomainError.isStreamClosed_failure {e : DomainError} (h : e.fault.kind ≠ .streamClosed) :
    e.failure.isStreamClosed = false := by
  unfold failure
  split
  · exact decide_eq_false h
  · rfl

end RecordStore
