import RecordStore.Collection.Remote
import RecordStore.Collection.Store
import RecordStore.Hooks
import RecordStore.Options.Basic

/-! A collection: its name, options, listeners and where its records are. Its operations are actions
that change it and may fail; what was done before a failure stays done. -/
namespace RecordStore

/-- What a collection did, in the order in which it can be seen from outside. -/
inductive Event where
  | heard (h : Hooks.Heard)
  /-- A search of records that can only be listed as a whole. -/
  | find (query : Query) (options : FindOptions) (total : Value)
  /-- A search of records that come as a stream. -/
  | stream (query : Query) (options : FindOptions)
  | addressed (name : Value)
  | request (r : Request)
  | cursorClosed
  | closeAwaited
  | driverFailed (operation : String) (collection : Value) (e : DriverError)
  | partialResult (records : Nat)

def Event.line? : Event → Option String
  | driverFailed operation collection e =>
    let what := if e.isDuplicate then "duplicate key" else
      if e.isConnection then "connection error" else "failed"
    some s!"ERROR: Mongo {operation} {what} for {collection.reading}: {e.name}"
  | partialResult n =>
    some s!"WARNING: Aggregate source closed early after {n} records; rendering partial result"
  | _ => none

def Event.isAnswered : Event → Bool
  | request r => r.isAnswered
  | _ => false

/-- When a listing tells how many records match. -/
inductive Totals where
  | asked
  | never
  | always
deriving DecidableEq

inductive Backend where
  | bare
  | listing (records : List Record) (totals : Totals)
  | feed (records : List Value)
  | memory (store : Store)
  | remote (server : Server)

structure Collection where
  name : Value
  options : CollectionOptions := {}
  hooks : Hooks.Registry := []
  backend : Backend := .bare
  trace : List Event := []

abbrev Action := ExceptT Failure (StateM Collection)

namespace Collection

def note (e : Event) : Action Unit := modify fun c => { c with trace := c.trace ++ [e] }

def refuse {α : Type} (operation : String) (f : Fault) : Action α := do
  throw (DomainError.failure {
    fault := f, operation := .str operation, collection := (← get).name })

def unsupported {α : Type} (operation : String) : Action α :=
  refuse operation (.notImplemented operation)

def setStore (store : Store) : Action Unit := modify fun c => { c with backend := .memory store }

def ofExcept {α : Type} : Except Failure α → Action α
  | .ok a => pure a
  | .error f => throw f

/-- What a store gives, or its refusal as the collection words it. -/
def ofStore {α : Type} (operation : String) (r : Except StoreError α) : Action α := do
  let name := (← get).name
  ofExcept (r.mapError fun e => e.toFailure (.str operation) name)

/-! ### Listeners and documents -/

def hook (event : Value) (l : Hooks.Listener) : Action Unit := do
  let hooks ← ofExcept ((← get).hooks.register event l)
  modify fun c => { c with hooks }

def settle {β : Type} (told : Hooks.Told β) : Action β := do
  told.heard.forM fun h => note (.heard h)
  ofExcept told.result
  return told.subject

/-- A new document of the collection, as the listeners of its birth leave it. Its data is an object
unless something else was given for it. -/
def document (data : Value) : Action Value := do
  let data := if data matches .null then .object [] else data
  return .document (← settle ((← get).hooks.triggerNow Hooks.postInit data))

/-! ### Requests to a server -/

/-- Fails as a driver did, leaving a line in the log. A cancellation goes through as it is. -/
def driverFailure {α : Type} (operation : String) (phase : Phase) : DriverError → Action α
  | .cancelled => throw .cancelled
  | e => do
    let name := (← get).name
    note (.driverFailed operation name e)
    throw (.domain {
      fault := e.fault phase, operation := .str operation, collection := name, cause := some e })

def address (server : Server) : Action Unit :=
  if server.connected then note (.addressed server.collection) else throw .databaseMissing

def asked (c : Collection) : Nat := c.trace.countP Event.isAnswered

/-- The reply to the request that comes next. -/
def comingReply (server : Server) : Action Reply := do return server.replyTo (← get).asked

def send (server : Server) (operation : String) (phase : Phase) (r : Request) : Action Reply := do
  let reply ← comingReply server
  note (.request r)
  match reply.error with
  | some e => driverFailure operation phase e
  | none => return reply

/-- Addresses the collection and sends a request; a missing server is a failure of the driver, and
so is a request that cannot be made. -/
def addressAndSend (server : Server) (operation : String) (phase : Phase)
    (r : Except Failure Request) : Action Reply := do
  if !server.connected then driverFailure operation phase .noServer
  else do
    address server
    match r with
    | .ok r => send server operation phase r
    | .error f => driverFailure operation phase (.ofFailure f)

def refuseOperators (operation : String) (query : Query) : Action Unit := do
  ofExcept (query.withoutOperators (.str operation) (← get).name)

end Collection

end RecordStore
