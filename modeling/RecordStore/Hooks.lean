import RecordStore.Value.Elements

/-! Listeners of the points in a document's life. They are told in the order in which they were
registered, up to the first that fails. -/
namespace RecordStore.Hooks

/-- What listeners are told of: how it is shown to them, and how they change it. -/
class Subject (β : Type) where
  shown : β → List Value
  changed : Value → Value → β → Except Failure β
  altered : (Record → Record) → β → β

instance : Subject Value where
  shown data := [.document data]
  changed key v data := data.putMember key v
  altered alter
    | .object r => .object (alter r)
    | data => data

/-- Any values, of which the first can change if it is a document. -/
instance : Subject (List Value) where
  shown vs := vs
  changed key v
    | .document data :: vs => do return .document (← data.putMember key v) :: vs
    | [] => .error .noElement
    | _ => .error .lacksOperation
  altered alter
    | .document (.object r) :: vs => .document (.object (alter r)) :: vs
    | vs => vs

/-- What a listener makes of the members of a document beside the one that it sets: nothing, unless
something else is given. -/
class Alteration where
  apply : Record → Record

instance : Alteration where
  apply r := r

structure Listener where
  name : Value
  /-- It does its work only when it is waited for. -/
  deferred : Bool := false
  set : Option (Value × Value) := none
  raise : Option String := none
  [alteration : Alteration]

structure Heard where
  listener : Value
  shown : List Value

structure Told (β : Type) where
  heard : List Heard
  subject : β
  result : Except Failure Unit

variable {β : Type} [Subject β]

def Listener.text (l : Listener) : String := s!"<listener {l.name.reading}>"

def Listener.change (l : Listener) (subject : β) : Except Failure β :=
  match l.set with
  | some (key, v) => Subject.changed key v subject
  | none => .ok subject

/-- A listener takes note, makes its changes, and then fails if it is to. -/
def Listener.tell (l : Listener) (subject : β) : Told β :=
  let heard := [⟨l.name, Subject.shown subject⟩]
  match l.change subject with
  | .error f => ⟨heard, subject, .error f⟩
  | .ok changed => ⟨heard, Subject.altered l.alteration.apply changed, match l.raise with
    | some text => .error (.listener text)
    | none => .ok ()⟩

/-- Tells listeners one after the other. An event that does not wait refuses a deferred one. -/
def tellAll (waits : Bool) (event : Value) : List Listener → β → Told β
  | [], subject => ⟨[], subject, .ok ()⟩
  | l :: ls, subject =>
    if l.deferred && !waits then ⟨[], subject, .error (.awaitable event l.text)⟩
    else
      let told := l.tell subject
      match told.result with
      | .error _ => told
      | .ok () =>
        let rest := tellAll waits event ls told.subject
        { rest with heard := told.heard ++ rest.heard }

/-- Listeners with the events they are registered for, in order. -/
abbrev Registry := List (Value × Listener)

namespace Registry

def register (r : Registry) (event : Value) (l : Listener) : Except Failure Registry :=
  if event.isKey then .ok (r ++ [(event, l)]) else .error .incomparable

def listeners (r : Registry) (event : Value) : List Listener :=
  r.filterMap fun (e, l) => if e.isElement event then some l else none

/-- The listeners of any value, which has to be one that cannot change. -/
def listeners? (r : Registry) (event : Value) : Except Failure (List Listener) :=
  if event.isKey then .ok (r.listeners event) else .error .incomparable

/-- Tells the listeners of an event, and waits for each or for none. -/
def tell (waits : Bool) (r : Registry) (event : Value) (subject : β) : Told β :=
  match r.listeners? event with
  | .ok ls => tellAll waits event ls subject
  | .error f => ⟨[], subject, .error f⟩

def trigger (r : Registry) (event : Value) (subject : β) : Told β := tell true r event subject

def triggerNow (r : Registry) (event : Value) (subject : β) : Told β := tell false r event subject

end Registry

/-! ### The points -/

def postInit : Value := .str "post-init"
def preSave : Value := .str "pre-save"
def postSave : Value := .str "post-save"
def preRemove : Value := .str "pre-remove"
def postRemove : Value := .str "post-remove"

end RecordStore.Hooks
