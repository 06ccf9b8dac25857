import RecordStore.Collection.Paging
import RecordStore.Collection.Update
import RecordStore.Value.Sort

/-! Records kept in memory under a key field. Each operation gives the store that it leaves behind.
One that is refused leaves the store as it was, unless a record that is no object cannot be filled
with what an update made of it. -/
namespace RecordStore

structure Store where
  keyField : Name := "id"
  /-- Objects, unless the store was made with something else. -/
  records : List Value := []
  generated : Nat := 0

namespace Store

/-- The key of a record; one without is null. -/
def keyOf (store : Store) (r : Record) : Value := (r.get? store.keyField).getD .null

def freshKey (store : Store) : Value := .str s!"gen-{store.generated + 1}"

def withFreshKey (store : Store) (r : Record) : Record × Store :=
  (r.put store.keyField store.freshKey, { store with generated := store.generated + 1 })

/-- Position of the first record of a key, looking for it in one after the other. -/
def position? (store : Store) (key : Value) : List Value → Except Failure (Option Nat)
  | [] => .ok none
  | v :: rest => do
    if (store.keyOf (← v.members)).eq key then return some 0
    else return (← position? store key rest).map (· + 1)

/-! ### Queries -/

/-- Refuses a filter that has an operator, or what is no text, for a path. -/
def refuseOperators (filter : Filter) : Except StoreError Unit :=
  filter.forM fun (name, _) => match name with
    | .text path => if isOperator path then .error (.fault (.queryOperator path)) else .ok ()
    | .key .. => .error (.failure .lacksOperation)

/-- The records, each with whether it meets a filter. Operators are refused. -/
def marked (store : Store) (filter : Filter) : Except StoreError (List (Value × Bool)) := do
  refuseOperators filter
  store.records.mapM fun r => match filter.holds r with
    | .ok holds => .ok (r, holds)
    | .error _ => .error (.failure .unreadablePosition)

/-- The filter of a query. What is no query is gone through for operators, and then fails at the
first record. -/
def filterOf (store : Store) (query : Query) : Except StoreError Filter :=
  match query.filter? with
  | some filter => .ok filter
  | none => do
    (← query.elements.mapError .failure).forM fun v => do
      let path ← v.name.mapError .failure
      if isOperator path then throw (.fault (.queryOperator path))
    if store.records = [] then return [] else throw (.failure .lacksOperation)

def select (store : Store) (filter : Filter) : Except StoreError (List Value) := do
  return (← store.marked filter).filterMap fun (r, holds) => if holds then some r else none

def count (store : Store) (query : Query) : Except StoreError Nat := do
  return (← store.select (← store.filterOf query)).length

def sorted (sort : Value) (rs : List Value) : Except StoreError (List Value) :=
  let look (r : Value) (path : String) := r.get (Path.ofText path)
  if !sort.truthy then .ok rs
  else match sortByValues look sort rs with
    | .ok sorted => .ok sorted
    | .error .incomparable => .error (.fault (.cannotSort sort))
    | .error (.path _) => .error (.failure .unreadablePosition)
    | .error .notKey => .error (.failure .lacksOperation)

/-- The part of a record at field paths; all of it if there are none. -/
def project (fields r : Value) : Except Failure Value :=
  if !fields.truthy then .ok r
  else do
    (← fields.elements).foldlM (fun part path => do
      match ← r.lookUp path with
      | .missing => return part
      | v => part.setAt path v) (.object [])

/-! ### Changes -/

/-- Adds a record. One without a key gets a fresh one; one with a known key is refused. -/
def insert (store : Store) (r : Record) : Except StoreError Store :=
  match store.keyOf r with
  | .null =>
    let (r, store) := store.withFreshKey r
    .ok { store with records := store.records ++ [.object r] }
  | key => do
    match ← (store.position? key store.records).mapError .failure with
    | some _ => throw (.fault (.duplicateKey store.keyField.reading key))
    | none => return { store with records := store.records ++ [.object r] }

/-- A record emptied and filled again from its replacement, and whether that can be done: lists and
byte arrays can only be emptied, and other values not even that. -/
def refill (old new : Value) : Value × Except Failure Unit :=
  match old, new with
  | .object _, .object ms => (.object ms, .ok ())
  | .set _, .set xs => (.set xs, .ok ())
  | .list _, _ => (.list [], .error .lacksOperation)
  | .byteArray _, _ => (.byteArray [], .error .lacksOperation)
  | old, _ => (old, .error .lacksOperation)

/-- Swaps replacements in for the marked records, one after the other up to the first that cannot be
filled. What was done before a fault stays done. -/
def swapIn : List (Value × Bool) → List Value → List Value × Except Failure Unit
  | [], _ => ([], .ok ())
  | (r, true) :: marks, new :: news =>
    match refill r new with
    | (r, .ok ()) => let (rest, outcome) := swapIn marks news; (r :: rest, outcome)
    | (r, .error f) => (r :: marks.map Prod.fst, .error f)
  | (r, _) :: marks, news => let (rest, outcome) := swapIn marks news; (r :: rest, outcome)

/-- The records, each with whether an update reaches it, and what takes the place of those that it
reaches. -/
def planUpdate (store : Store) (fullReplace : Bool) (query : Query) (given : Value) :
    Except StoreError (List (Value × Bool) × List Value) := do
  let change ← Update.read fullReplace given
  let marks ← store.marked (← store.filterOf query)
  return (marks, ← (marks.filter (·.2)).mapM fun (r, _) => change.apply store.keyField r)

/-- Updates the records that meet a filter; gives their number. Nothing is swapped in before every
replacement is made. -/
def update (store : Store) (fullReplace : Bool) (query : Query) (given : Value) :
    Except StoreError Nat × Store :=
  match store.planUpdate fullReplace query given with
  | .error e => (.error e, store)
  | .ok (marks, news) =>
    let (records, outcome) := swapIn marks news
    ((outcome.mapError .failure).map fun _ => (marks.filter (·.2)).length, { store with records })

def remove (store : Store) (query : Query) : Except StoreError (Nat × Store) := do
  let marks ← store.marked (← store.filterOf query)
  return ((marks.filter (·.2)).length,
    { store with records := marks.filterMap fun (r, holds) => if holds then none else some r })

def withKey (store : Store) (r : Record) : Record × Store :=
  if r.has store.keyField then (r, store) else store.withFreshKey r

/-- Keeps a record in the place of the first of its key, or at the end. -/
def save (store : Store) (r : Record) : Except Failure Store := do
  match ← store.position? (store.keyOf r) store.records with
  | none => return { store with records := store.records ++ [.object r] }
  | some n => return { store with records := store.records.set n (.object r) }

end Store

end RecordStore
