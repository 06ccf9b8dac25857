import RecordStore.Fault
import RecordStore.Value.Elements
import RecordStore.Value.Path

/-! Filters of queries: what must stand at field paths. -/
namespace RecordStore

def isOperator (name : String) : Bool := name.toList.head? = some '$'

abbrev Filter := Record

/-- A query as it was given: a filter in an object, or nothing, which like anything empty asks for
everything. Any other value is no query. -/
abbrev Query := Value

namespace Query

def filter? : Query → Option Filter
  | .object filter => some filter
  | q => if q.truthy then none else some []

/-- The query that asks the same, with a filter in place of nothing. -/
def explicit (q : Query) : Query := if q.truthy then q else .object []

end Query

namespace Filter

/-- Null asks for nothing to be there. -/
def meets (expected actual : Value) : Bool :=
  match expected with
  | .null => actual.isAbsent
  | _ => !actual.isMissing && actual.eq expected

/-- Whether a record meets a filter, path by path up to the first that does not. -/
def holds (record : Value) : Filter → Except Path.Fault Bool
  | [] => .ok true
  | (path, expected) :: rest => do
    if meets expected (← record.get (Path.ofText path.reading)) then holds record rest
    else return false

end Filter

namespace Value

mutual

/-- The first operator among the names in a value, looking into objects and lists. -/
def operatorIn? : Value → Option String
  | object ms => operatorInMembers? ms
  | list xs => operatorInList? xs
  | _ => none

def operatorInMembers? : Record → Option String
  | [] => none
  | (name, v) :: ms =>
    if isOperator name.reading then some name.reading
    else match operatorIn? v with
      | some found => some found
      | none => operatorInMembers? ms

def operatorInList? : List Value → Option String
  | [] => none
  | v :: vs => match operatorIn? v with
    | some found => some found
    | none => operatorInList? vs

end

def withoutOperators (v operation collection : Value) : Except Failure Unit :=
  match v.operatorIn? with
  | some name => .error (.domain { fault := .filterKey name, operation, collection })
  | none => .ok ()

end Value

end RecordStore
