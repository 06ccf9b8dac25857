import RecordStore.Text.Digit
import RecordStore.Text.Split
import RecordStore.Value.Basic

/-! Field paths: names and positions separated by points. A lookup goes through objects by name,
through lists, tuples and byte arrays by position, and through documents to their data. -/
namespace RecordStore

abbrev Path := List String

namespace Path

def ofText (s : String) : Path := (Text.split '.' s.toList).map String.ofList

/-- What can go wrong in a lookup: a position whose digits have no value. -/
inductive Fault where
  | unreadablePosition
deriving DecidableEq

def position (name : String) : Except Fault (Option Nat) :=
  if name = "" ∨ !name.toList.all Text.isDigit then .ok none
  else match Text.numeral? name.toList with
    | some n => .ok (some n)
    | none => .error .unreadablePosition

end Path

namespace Value

def unwrap : Value → Value
  | document data => data
  | v => v

def child (v : Value) (name : String) : Except Path.Fault Value :=
  let nth (xs : List Value) : Except Path.Fault Value := do
    match ← Path.position name with
    | some i => return xs.getD i .missing
    | none => return .missing
  match v with
  | object ms => .ok ((Record.get? name ms).getD .missing)
  | list xs => nth xs
  | tuple xs => nth xs
  | byteArray bs => nth (byteValues bs)
  | _ => .ok .missing

def follow : Path → Value → Except Path.Fault Value
  | [], v => .ok v
  | name :: rest, v => do
    match ← v.unwrap.child name with
    | .missing => return .missing
    | w => follow rest w

/-- The value at a path, or `missing`. A record may itself be a document. -/
def get (v : Value) (path : Path) : Except Path.Fault Value := follow path v.unwrap

end Value

namespace Record

/-- Sets the value at a path; what is no object on the way gives way to one. -/
def setAt : Path → Value → Record → Record
  | [], _, r => r
  | [name], v, r => r.put name v
  | name :: rest, v, r =>
    r.put name (.object (setAt rest v ((r.get? name).bind Value.members? |>.getD [])))

def unsetAt : Path → Record → Record
  | [], r => r
  | [name], r => r.erase name
  | name :: rest, r =>
    match r.get? name with
    | some (.object ms) => r.put name (.object (unsetAt rest ms))
    | _ => r

def get (r : Record) (path : Path) : Except Path.Fault Value := Value.get (.object r) path

end Record

end RecordStore
