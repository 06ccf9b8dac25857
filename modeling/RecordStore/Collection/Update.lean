import RecordStore.Collection.Filter
import RecordStore.Value.Edit

/-! Update expressions: operators that set, remove and add at field paths, or plain members. -/
namespace RecordStore

/-- Why a store refuses: a fault that is worded with its collection, or any other failure. -/
inductive StoreError where
  | fault (f : Fault)
  | failure (f : Failure)

def StoreError.toFailure (operation collection : Value) : StoreError → Failure
  | fault f => DomainError.failure { fault := f, operation, collection }
  | failure f => f

inductive Update where
  | operators (given : Value)
  | replacement (data : Value)

/-- Whether an expression is one of operators; one that is mixed is refused. -/
def isOperatorUpdate (names : List String) : Except Failure Bool :=
  let operators := names.filter isOperator
  if operators ≠ [] ∧ operators.length ≠ names.length then .error .mixedUpdate
  else .ok (operators ≠ [])

/-- The names in an expression: those of an object's members, or any elements. -/
def updateNames (given : Value) : Except Failure (List String) := do
  (← given.elements).mapM Value.name

def isOperatorValue (v : Value) : Except Failure Bool := do isOperatorUpdate (← updateNames v)

namespace Update

def setName : String := "$set"
def unsetName : String := "$unset"
def incrementName : String := "$inc"

def supported : List String := [setName, unsetName, incrementName]

def set (members r : Value) : Except StoreError Value := do
  let ms ← members.members.mapError .failure
  ms.entries.foldlM (fun r (path, v) => (Value.setAt r (.str path) v).mapError .failure) r

def unset (paths r : Value) : Except StoreError Value := do
  (← paths.elements.mapError .failure).foldlM
    (fun r path => (Value.unsetAt r path).mapError .failure) r

/-- Adds to the number at a path; nothing there counts as zero. -/
def incrementAt (r : Value) (path : String) (amount : Value) : Except StoreError Value := do
  let current ← (r.lookUp (.str path)).mapError .failure
  match if current.isAbsent then Value.int 0 else current, amount with
  | .num m, .num n => match m.add n with
    | some sum => (r.setAt (.str path) (.num sum)).mapError .failure
    | none => .error (.failure .numberTooLarge)
  | _, _ => .error (.fault (.increment path))

def increment (amounts r : Value) : Except StoreError Value := do
  (← amounts.members.mapError .failure).entries.foldlM
    (fun r (path, amount) => incrementAt r path amount) r

def operand (given : Record) (name : String) : Value := (given.get? name).getD (.object [])

/-- The record after an update: values are set, then removed, then added to. A replacement keeps the
old key unless it brings its own. -/
def apply (keyField : Name) (r : Value) : Update → Except StoreError Value
  | operators given => do
    let given ← given.members.mapError .failure
    let r ← set (operand given setName) r
    let r ← unset (operand given unsetName) r
    increment (operand given incrementName) r
  | replacement data => do
    let data ← data.members.mapError .failure
    let old ← r.members.mapError .failure
    return .object (if data.has keyField then data
      else data.put keyField ((old.get? keyField).getD .null))

def wrapped (given : Value) : Value := .object [(setName, given)]

def read (fullReplace : Bool) (given : Value) : Except StoreError Update := do
  let names ← (updateNames given).mapError .failure
  match isOperatorUpdate names with
  | .error _ => .error (.fault .mixedUpdate)
  | .ok true => match names.find? fun name => name ∉ supported with
    | some name => .error (.fault (.updateOperator name))
    | none => .ok (.operators given)
  | .ok false => .ok (if fullReplace then .replacement given else .operators (wrapped given))

end Update

end RecordStore
