import RecordStore.Value.Elements
import RecordStore.Value.Path

/-! Looking up and changing any value at a field path that is itself a value. A path has to be a
text; only objects have members that can change. -/
namespace RecordStore.Value

def path (v : Value) : Except Failure Path := do return Path.ofText (← v.name)

def lookUp (v path : Value) : Except Failure Value := do
  (v.get (← path.path)).mapError fun _ => .unreadablePosition

def setAt (v path w : Value) : Except Failure Value := do
  match v, ← path.path with
  | object ms, path => return object (Record.setAt path w ms)
  | _, [_] => throw .incomparable
  | _, _ => throw .lacksOperation

def unsetAt (v path : Value) : Except Failure Value := do
  match v, ← path.path with
  | object ms, path => return object (Record.unsetAt path ms)
  | v, _ => return v

end RecordStore.Value
