import RecordStore.Aggregate.Spec
import RecordStore.Fault
import RecordStore.Options.Basic
import RecordStore.Value.Path
import RecordStore.Value.Time

/-! Reading aggregate requests. A request may use short forms: a path for a clause or for the
statistics of a field, a list of paths, boundaries in place of ranges. Reading expands them and
refuses what makes no sense; `Spec.ofRequest` is the whole. -/
namespace RecordStore.Aggregate

/-- Why a request is refused: a fault at a place, or a time that cannot be reckoned. -/
inductive SpecError where
  | invalid (fault : SpecFault) (place : Location)
  | time (f : TimeFault)

def SpecError.failure : SpecError → Failure
  | invalid fault place => DomainError.failure { fault := .spec fault, location := place }
  | time f => .time f

abbrev Reading := Except SpecError

def refuse {α : Type} (fault : SpecFault) (place : Location := {}) : Reading α :=
  .error (.invalid fault place)

def require (holds : Bool) (fault : SpecFault) (place : Location := {}) : Reading Unit :=
  if holds then .ok () else refuse fault place

def sortedNames (names : List String) : List String := names.mergeSort fun a b => a ≤ b

def namesOutside (known : List String) (ms : Record) : List String :=
  ms.keys.filter fun k => k ∉ known

/-- A field path: a text that is not empty, and without empty names if paths are strict. -/
def fieldPath (options : RequestOptions) (clause : Value) : Value → Reading String
  | .str path =>
    if path = "" then refuse (.fieldForm (.str path)) { clause }
    else if options.strictFieldPaths && (Path.ofText path).any (· = "") then
      refuse .emptySegment { field := .str path, clause }
    else .ok path
  | v => refuse (.fieldForm v) { clause }

/-! ### Statistics -/

def statMember (options : RequestOptions) (path : String) (r : StatRequest) (name : String)
    (v : Value) : Reading StatRequest :=
  match Statistic.ofName? name, v with
  | some k, .bool b => .ok (r.switch b k)
  | some _, _ => refuse (.statFlag name) (.ofField path)
  | none, _ =>
    if options.allowUnknownStats then .ok { r with extensions := r.extensions ++ [(.text name, v)] }
    else refuse (.unknownStat name) (.ofField path)

/-- The request for one field: true and an empty object ask for the count. -/
def statRequest (options : RequestOptions) (path : String) : Value → Reading StatRequest
  | .bool true | .object [] => .ok { count := true }
  | .object ms => do
    let r ← (Record.entries ms).foldlM (fun r (name, v) => statMember options path r name v) {}
    require (r.requested ≠ [] || r.extensions ≠ []) .nothingEnabled (.ofField path)
    return r
  | v => refuse (.statForm v) (.ofField path)

/-- The fields of a statistics section with what is asked of each. -/
def statFields : Value → Reading Record
  | .str path => .ok [(path, .bool true)]
  | .object ms => .ok ms
  | v => match v.sequence? with
    | some xs => do
      let paths ← xs.mapM fun x => match x with
        | .str path => .ok path
        | x => refuse (.statsEntry x)
      return Record.putAll [] (paths.map fun path => (path, .bool true))
    | none => refuse (.statsForm v)

def statsSection (options : RequestOptions) (v : Value) : Reading Stats := do
  (← statFields v).entries.mapM fun (path, request) => do
    let path ← fieldPath options .null (.str path)
    return (path, ← statRequest options path request)

/-! ### Ranges -/

inductive Boundary where
  | number (n : Num)
  | time (t : Instant)
deriving DecidableEq

namespace Boundary

/-- Numbers come before times, and times go by their texts. -/
def ge : Boundary → Boundary → Bool
  | number n, number m => m.le n
  | time t, time u => u.text ≤ t.text
  | time _, number _ => true
  | number _, time _ => false

def gt : Boundary → Boundary → Bool
  | number n, number m => m.lt n
  | time t, time u => u.text < t.text
  | time _, number _ => true
  | number _, time _ => false

def number? : Boundary → Option Num
  | number n => some n
  | time _ => none

def time? : Boundary → Option Instant
  | time t => some t
  | number _ => none

def read [Present] (place : Location) : Value → Reading Boundary
  | .num n => .ok (.number n)
  | v =>
    if v.isDateLike then match v.toInstant with
      | .ok t => .ok (.time t)
      | .error f => if f.isRefusal then refuse (.boundary v) place else .error (.time f)
    else refuse (.boundary v) place

end Boundary

def ascending : List Boundary → Bool
  | b :: c :: rest => !b.ge c && ascending (c :: rest)
  | _ => true

def between : Option Boundary → List Boundary → List (Range Boundary)
  | start, [] => [⟨start, none⟩]
  | start, b :: rest => ⟨start, some b⟩ :: between (some b) rest

def rangeBound [Present] (place : Location) (v : Option Value) : Reading (Option Boundary) :=
  match v with
  | none | some .null => .ok none
  | some v => do return some (← Boundary.read place v)

def rangeOf [Present] (place : Location) (ms : Record) : Reading (Range Boundary) := do
  let unknown := namesOutside ["start", "end"] ms
  require (unknown = []) (.rangeKeys (sortedNames unknown)) place
  let start ← rangeBound place (ms.get? "start")
  let finish ← rangeBound place (ms.get? "end")
  return ⟨start, finish⟩

/-- Ranges in order: only the first may lack a start and only the last an end, none is empty, and
none starts before the end of the one before it. -/
def checkRanges (place : Location) : Option (Range Boundary) → List (Range Boundary) → Reading Unit
  | _, [] => .ok ()
  | before, r :: rest => do
    require (r.start.isSome || before.isNone) .startOmitted place
    require (r.finish.isSome || rest.isEmpty) .endOmitted place
    match r.start, r.finish with
    | some s, some f => require (!s.ge f) .unsortedRanges place
    | _, _ => pure ()
    match before.bind (·.finish), r.start with
    | some f, some s => require (!f.gt s) .unsortedRanges place
    | _, _ => pure ()
    checkRanges place (some r) rest

def Range.only {α : Type} (pick : Boundary → Option α) (r : Range Boundary) : Range α :=
  ⟨r.start.bind pick, r.finish.bind pick⟩

def bounds (rs : List (Range Boundary)) : List Boundary :=
  rs.flatMap fun r => r.start.toList ++ r.finish.toList

/-- Ranges of numbers or of times; without any bound they count as ranges of numbers. -/
def unmixed (place : Location) (rs : List (Range Boundary)) : Reading Grouping := do
  let all := bounds rs
  require (all.all (·.number?.isSome) || all.all (·.time?.isSome)) .mixedBoundaries place
  if all.any (·.time?.isSome) then return .timeRanges (rs.map (Range.only Boundary.time?))
  else return .numberRanges (rs.map (Range.only Boundary.number?))

def readRanges [Present] (place : Location) (v : Value) : Reading Grouping := do
  let some items := v.sequence? | refuse .rangesForm place
  require (items ≠ []) .rangesForm place
  let objects := items.filterMap Value.members?
  if objects = [] then
    let all ← items.mapM (Boundary.read place)
    require (ascending all) .unsortedRanges place
    unmixed place (between none all)
  else if objects.length = items.length then
    let rs ← objects.mapM (rangeOf place)
    checkRanges place none rs
    unmixed place rs
  else refuse .mixedForms place

/-! ### Intervals and calendar units -/

def optional (ms : Record) (name : String) : Option Value :=
  (ms.get? name).bind fun v => if v matches .null then none else some v

def readInterval [Present] (place : Location) (interval : Value) (base : Option Value) :
    Reading Grouping :=
  match interval with
  | .num step => do
    require (!step.le (.int 0)) .intervalNotPositive place
    match base with
    | none => return .numberInterval step none
    | some (.num b) => return .numberInterval step (some b)
    | some _ => refuse .numericBase place
  | .str text =>
    match TimeText.parseDuration text with
    | .error f => if f.isRefusal then refuse (.duration text f) place else .error (.time f)
    | .ok step => do
      require (0 < step) .intervalNotPositive place
      match base with
      | none => return .timeInterval text step none
      | some b =>
        require b.isDateLike .timestampBase place
        match b.toInstant with
        | .ok t => return .timeInterval text step (some t)
        | .error f => if f.isRefusal then refuse (.baseText b) place else .error (.time f)
  | _ => refuse .intervalForm place

def readUnit (place : Location) (unit count : Value) : Reading Grouping := do
  let found := match unit with
    | .str s => CalendarUnit.ofName? s
    | _ => none
  let some unit := found | refuse (.unknownUnit (CalendarUnit.all.map CalendarUnit.name)) place
  match count with
  | .num (.int n) =>
    require (1 ≤ n) .unitCount place
    return .calendar unit n.toNat
  | _ => refuse .unitCount place

/-! ### Clauses -/

def modeNames : List String := ["ranges", "interval", "timeComponent"]

def clauseNames : List String :=
  ["field", "ranges", "interval", "base", "timeComponent", "timeComponentCount"]

def clauseOf [Present] (options : RequestOptions) (index : Int) (ms : Record) : Reading Clause := do
  let field ← fieldPath options (.int index) ((ms.get? "field").getD .null)
  let place : Location := { field := .str field, clause := .int index }
  let unknown := namesOutside clauseNames ms
  require (unknown = []) (.clauseKeys (sortedNames unknown)) place
  let modes := modeNames.filter fun (name : String) => ms.has name
  require (modes.length ≤ 1) (.combinedModes modes) place
  require (!ms.has "base" || ms.has "interval") .baseWithoutInterval place
  require (!ms.has "timeComponentCount" || ms.has "timeComponent") .countWithoutUnit place
  match ms.get? "ranges", ms.get? "interval", ms.get? "timeComponent" with
  | some v, _, _ => return ⟨field, ← readRanges place v⟩
  | _, some v, _ => return ⟨field, ← readInterval place v (optional ms "base")⟩
  | _, _, some v =>
    return ⟨field, ← readUnit place v ((ms.get? "timeComponentCount").getD (.int 1))⟩
  | _, _, _ => return ⟨field, .discrete⟩

def readClause [Present] (options : RequestOptions) (index : Int) : Value → Reading Clause
  | .str path => clauseOf options index [("field", .str path)]
  | .object ms => clauseOf options index ms
  | v => refuse (.clauseForm v) (.ofClause index)

def readClauses [Present] (options : RequestOptions) : Nat → List Value → Reading (List Clause)
  | _, [] => .ok []
  | index, v :: rest => do
    let c ← readClause options index v
    return c :: (← readClauses options (index + 1) rest)

def clauseValues? : Value → Option (List Value)
  | .str path => some [.str path]
  | .object ms => some [.object ms]
  | v => v.sequence?

def readGroupBy [Present] (options : RequestOptions) (v : Value) : Reading (List Clause) :=
  match clauseValues? v with
  | none | some [] => refuse .groupByForm
  | some vs => readClauses options 0 vs

/-! ### The whole request -/

def requestNames : List String := ["type", "aggregateType", "stats", "groupBy", "total"]

/-- Whether a request is for groups: as declared, or by its clauses. -/
def wantsGroups (ms : Record) : Reading Bool :=
  match (ms.get? "type").getD ((ms.get? "aggregateType").getD .null) with
  | .null => .ok (ms.has "groupBy")
  | .str "group" => .ok true
  | .str "stats" => .ok false
  | v => refuse (.unknownType v)

def groupSpec [Present] (options : RequestOptions) (ms extra : Record) (total : Bool) :
    Reading Spec := do
  let some groupBy := ms.get? "groupBy" | refuse .groupByMissing
  let clauses ← readGroupBy options groupBy
  let stats ← match optional ms "stats" with
    | some v => statsSection options v
    | none => .ok []
  return ⟨some clauses, stats, total, extra⟩

def statsSpec (options : RequestOptions) (ms extra : Record) (total : Bool) : Reading Spec := do
  require (!ms.has "groupBy") .groupByInStats
  let given := (ms.get? "stats").getD .null
  let stats ← if given.truthy then statsSection options given else .ok []
  require (stats ≠ [] || total) .nothingRequested
  return ⟨none, stats, total, extra⟩

def Spec.ofRequest [Present] (options : RequestOptions) : Value → Reading Spec
  | .object ms => do
    let unknown := namesOutside requestNames ms
    require (unknown = [] || options.allowUnknownKeys) (.unknownKeys (sortedNames unknown))
    let extra := ms.filter fun (k, _) => k.reading ∉ requestNames
    match (Record.get? "total" ms).getD (.bool false) with
    | .bool total =>
      if ← wantsGroups ms then groupSpec options ms extra total
      else statsSpec options ms extra total
    | _ => refuse .totalNotBool
  | v => refuse (.notObject v.kind)

end RecordStore.Aggregate
