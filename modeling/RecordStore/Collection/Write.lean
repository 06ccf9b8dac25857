import RecordStore.Collection.Find

/-! Changes to a collection as a whole: records are inserted, updated, removed, or updated where
they match and inserted where none does. -/
namespace RecordStore.Collection

def insert (data : Value) : Action Unit := do
  match (← get).backend with
  | .memory store =>
    let data ← ofExcept data.members
    setStore (← ofStore "insert" (store.insert data))
  | .remote server =>
    let request := (Record.putHeld [] data).map fun r => Request.insertOne (.object r)
    let _ ← addressAndSend server "insert" .write request
  | _ => unsupported "insert"

/-- The update that a server gets: operators as they are, plain members to be set. -/
def serverUpdate (fullReplace : Bool) (given : Value) : Action Value := do
  let names ← ofExcept (updateNames given)
  match isOperatorUpdate names with
  | .error _ => refuse "update" .mixedUpdate
  | .ok true => return given
  | .ok false =>
    if fullReplace then unsupported "update with full replace" else return Update.wrapped given

/-- Updates the records that match; gives their number, or what a server tells of it. Without a
choice the collection's option says whether plain members replace whole records. -/
def update (query : Query) (given choice : Value) : Action Value := do
  let options := (← get).options
  let fullReplace := if choice matches .null then options.allowFullReplace else choice.truthy
  match (← get).backend with
  | .memory store =>
    let (outcome, store) := store.update fullReplace query given
    setStore store
    return .int (← ofStore "update" outcome)
  | .remote server =>
    let query := Query.explicit query
    refuseOperators "update" query
    let given ← serverUpdate fullReplace given
    let reply ← addressAndSend server "update" .write (.ok (.updateMany query given))
    ofExcept (Reply.told reply.matched)
  | _ => unsupported "update"

/-- Removes the records that match; gives their number, or what a server tells of it. -/
def remove (query : Query) : Action Value := do
  match (← get).backend with
  | .memory store =>
    let (n, store) ← ofStore "remove" (store.remove query)
    setStore store
    return .int n
  | .remote server =>
    let query := Query.explicit query
    refuseOperators "remove" query
    let reply ← addressAndSend server "remove" .write (.ok (.deleteMany query))
    ofExcept (Reply.told reply.deleted)
  | _ => unsupported "remove"

/-- Whether some of the elements are operators, going through them up to the first that is. -/
def anyOperator : List Value → Except Failure Bool
  | [] => .ok false
  | v :: vs => do if isOperator (← v.name) then return true else anyOperator vs

/-- The record that an upsert inserts: what the filter asks for, and on top the plain members or
those to be set. -/
def upsertRecord (query : Query) (data : Value) : Except Failure Record := do
  let asked := (← query.members).filter fun (name, _) => !isOperator name.reading
  if ← anyOperator (← data.elements) then
    Record.putHeld asked (Update.operand (← data.members) Update.setName)
  else Record.putHeld asked data

/-- Updates the records that match, or inserts one if there are none. -/
def upsert (query : Query) (data : Value) : Action Unit := do
  match (Value.int 0).lt? (← count query) with
  | none => throw .incomparable
  | some true => let _ ← update query data .null
  | some false => insert (.object (← ofExcept (upsertRecord query data)))

def size : Action Nat := do
  match (← get).backend with
  | .memory store => return store.records.length
  | _ => throw .notIterable

end RecordStore.Collection
