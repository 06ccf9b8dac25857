import RecordStore.Collection.Write
import RecordStore.Text.Quoted

/-! Documents in hand: the data of one record, which can change freely until it is saved. Listeners
are told before and after it is saved or removed, and may change it. -/
namespace RecordStore

inductive DocumentForm where
  | plain
  | stored
  | remote
deriving DecidableEq

def DocumentForm.name : DocumentForm → String
  | plain => "Document"
  | stored => "MemoryDocument"
  | remote => "MongoDocument"

structure Document where
  form : DocumentForm
  /-- An object, unless something else was given for it. -/
  data : Value

def Document.text (collection : Value) (d : Document) : String :=
  s!"{d.form.name}({collection.text}, {d.data.text})"

def Document.value (d : Document) : Value := .document d.data

/-- What is done with a document in hand, in the collection that it belongs to. -/
abbrev Handling := ExceptT Failure (StateM (Collection × Value))

namespace Collection

def form (c : Collection) : DocumentForm :=
  match c.backend with
  | .memory _ => .stored
  | .remote _ => .remote
  | _ => .plain

def documentOf (c : Collection) : Value → Option Document
  | .document data => some ⟨c.form, data⟩
  | _ => none

def create (data : Value) : Action Value := do
  match (← get).form with
  | .plain => unsupported "create"
  | _ => document data

end Collection

namespace Handling

def lift {α : Type} (a : Action α) : Handling α := ExceptT.mk fun (c, data) =>
  let (r, c) := a.run c
  (r, (c, data))

def data : Handling Value := do return (← get).2

def setData (data : Value) : Handling Unit := modify fun (c, _) => (c, data)

def ofExcept {α : Type} (r : Except Failure α) : Handling α := lift (Collection.ofExcept r)

/-- Tells the listeners of an event; what they changed stays, also if one of them fails. -/
def trigger (event : Value) : Handling Unit := do
  let (c, data) ← get
  let told := c.hooks.trigger event data
  setData told.subject
  lift (told.heard.forM fun h => Collection.note (.heard h))
  ofExcept told.result

def serverKey : String := "_id"

/-- What comes up on the way to a server fails like its driver. -/
def asDriver {α : Type} (operation : String) (r : Except Failure α) : Handling α :=
  match r with
  | .ok a => pure a
  | .error f => lift (Collection.driverFailure operation .write (.ofFailure f))

/-- What a driver leaves of data that it was handed as new. -/
def leftBy (reply : Reply) : Value → Value
  | .object ms => .object ((reply.assigned.map fun key => Record.put serverKey key ms).getD ms)
  | v => v

/-- Keeps the data on a server: in the place of its key, or as new, and then with the new key. New
data is handed to the driver as it is, which changes it also if it is refused. -/
def send (server : Server) : Handling Unit := do
  lift (Collection.address server)
  let data ← data
  if ← asDriver "save" (data.holds serverKey) then
    let key ← asDriver "save" (data.member serverKey)
    let _ ← lift (Collection.send server "save" .write (.replaceOne [(serverKey, key)] data))
  else
    setData (leftBy (← lift (Collection.comingReply server)) data)
    let reply ← lift (Collection.send server "save" .write (.insertOne data))
    let key ← asDriver "save" (Reply.told reply.inserted)
    setData (← asDriver "save" ((← Handling.data).putMember (.str serverKey) key))

/-- Keeps the data in a store, which may give it a key. What is no object is not kept, but may use
up a key. -/
def keep (store : Store) : Handling Unit := do
  match ← data with
  | .object r =>
    let (r, store) := store.withKey r
    setData (.object r)
    lift (Collection.setStore store)
    lift (Collection.setStore (← ofExcept (store.save r)))
  | other =>
    if !(← ofExcept (other.holds store.keyField.reading)) then
      lift (Collection.setStore { store with generated := store.generated + 1 })
    ofExcept (.error .incomparable)

def save (form : DocumentForm) : Handling Unit := do
  match form, (← get).1.backend with
  | .stored, .memory store =>
    trigger Hooks.preSave
    keep store
    trigger Hooks.postSave
  | .remote, .remote server =>
    trigger Hooks.preSave
    send server
    trigger Hooks.postSave
  | _, _ => lift (Collection.unsupported "save")

/-- Removes the records of a key; the key is the one from before the listeners were told. -/
def drop (store : Store) (key : Value) : Handling Unit := do
  let gone ← match key with
    | .null => pure (Value.int 0)
    | key => lift (Collection.remove (.object [(store.keyField, key)]))
  if !gone.truthy then
    lift (Collection.refuse "remove" (.notStored store.keyField.reading key))

def sendRemoval (server : Server) : Handling Unit := do
  lift (Collection.address server)
  let key ← asDriver "remove" ((← data).member serverKey)
  let reply ← lift (Collection.send server "remove" .write (.deleteOne [(serverKey, key)]))
  let deleted ← ofExcept (Reply.told reply.deleted)
  if !deleted.truthy then lift (Collection.refuse "remove" (.notStored serverKey key))

def remove (form : DocumentForm) : Handling Unit := do
  match form, (← get).1.backend with
  | .stored, .memory store =>
    let key := store.keyOf (← ofExcept (← data).members)
    trigger Hooks.preRemove
    drop store key
    trigger Hooks.postRemove
  | .remote, .remote server =>
    if !(← ofExcept ((← data).holds serverKey)) then
      lift (Collection.refuse "remove" .neverSaved)
    trigger Hooks.preRemove
    sendRemoval server
    trigger Hooks.postRemove
  | _, _ => lift (Collection.unsupported "remove")

def on (work : DocumentForm → Handling Unit) (d : Document) :
    StateM Collection (Except Failure Unit × Document) := fun c =>
  let (r, (c, data)) := (work d.form).run (c, d.data)
  ((r, { d with data }), c)

end Handling

namespace Document

def save (d : Document) : StateM Collection (Except Failure Unit × Document) := Handling.on .save d

def remove (d : Document) : StateM Collection (Except Failure Unit × Document) :=
  Handling.on .remove d

def edit (given : Value) (d : Document) : Except Failure Document := do
  return { d with data := .object (← Record.putHeld (← d.data.members) given) }

end Document

end RecordStore
