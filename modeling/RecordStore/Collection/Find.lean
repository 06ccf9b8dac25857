import RecordStore.Collection.Basic
import RecordStore.Stream

/-! Queries of a collection: streams of documents, lists of them, and their number. -/
namespace RecordStore

/-- Documents that were found, and how many match in all, or null if that is not known. -/
structure Found where
  documents : List Value
  total : Value := .null

/-- What the stream of a collection reads from. -/
inductive Feed where
  | items (rest : List Value) (total : Nat)
  /-- A search that is made at the first read, and then what is left of what it found. -/
  | search (query : Query) (options : FindOptions) (found : Option Found)
  | cursor (c : Cursor)

namespace Collection

/-! ### Listings -/

/-- Members that a query names must be equal; one that is not there counts as null. -/
def sameMembers (filter : Filter) (r : Record) : Bool :=
  filter.all fun (name, expected) => ((r.get? name).getD .null).eq expected

def withMembers (query : Query) (records : List Record) : Except Failure (List Record) :=
  match query.filter? with
  | some filter => .ok (records.filter (sameMembers filter))
  | none => if records = [] then .ok [] else .error .lacksOperation

def list (query : Query) (options : FindOptions) (total : Value) : Action Found := do
  match (← get).backend with
  | .listing records totals =>
    note (.find query options total)
    let found ← ofExcept (withMembers query records)
    let page ← ofExcept (Paging.page options.skip options.limit found)
    let documents ← page.mapM fun r => document (.object r)
    let told := match totals with
      | .asked => total.truthy
      | .never => false
      | .always => true
    return ⟨documents, if told then .int found.length else .null⟩
  | _ => unsupported "find"

/-! ### Streams -/

def cursor (server : Server) (query : Query) (options : FindOptions) : Action Cursor := do
  let maximum := (← get).options.maxQueryLimit
  let skip ← ofExcept (Paging.skip options.skip)
  let limit ← ofExcept (Paging.limit (.int maximum) options.limit)
  let query := Query.explicit query
  refuseOperators "find_stream" query
  let projection ← ofExcept (projectionOf options.fields)
  address server
  let reply ← comingReply server
  note (.request (.find query projection))
  let keys ← ofExcept (cursorKeys options.sort)
  if keys ≠ [] then note (.request (.sort keys))
  if skip.truthy then note (.request (.skip skip))
  if !limit matches .null then note (.request (.limit limit))
  return reply.cursor query

/-- The matches in memory that a query asks for, as documents, and the number of all matches. -/
def matching (store : Store) (query : Query) (options : FindOptions) :
    Action (List Value × Nat) := do
  let maximum := (← get).options.maxQueryLimit
  let skip ← ofExcept (Paging.skip options.skip)
  let limit ← ofExcept (Paging.limit (.int maximum) options.limit)
  let found ← ofStore "find_stream" (store.filterOf query >>= store.select)
  let found ← ofStore "find_stream" (Store.sorted options.sort found)
  let page ← ofExcept (Paging.page skip limit found)
  let documents ← page.mapM fun r => do
    document (← ofExcept (Store.project options.fields r))
  return (documents, found.length)

def openStream (query : Query) (options : FindOptions) : Action (Stream Feed) := do
  let name := (← get).name
  match (← get).backend with
  | .bare => unsupported "find_stream"
  | .listing .. => return { name, inner := .search query options none }
  | .feed records =>
    note (.stream query options)
    let rest ← ofExcept (Paging.slice options.skip .null records)
    return { name, inner := .items rest records.length }
  | .memory store =>
    let (documents, total) ← matching store query options
    return { name, inner := .items documents total }
  | .remote server => return { name, inner := .cursor (← cursor server query options) }

def documentOfReply (v : Value) : Action Value := do
  document (.object (← ofExcept (Record.putHeld [] v)))

end Collection

namespace Feed

/-- Reads the next document of a search that found something, or found nothing. -/
def ofFound (query : Query) (options : FindOptions) (c : Collection) :
    Found → Delivery × Feed × Collection
  | ⟨[], total⟩ => (.finished, .search query options (some ⟨[], total⟩), c)
  | ⟨v :: vs, total⟩ => (.record v, .search query options (some ⟨vs, total⟩), c)

/-- The next document. An error of the driver comes up where the cursor ends. -/
def next : Feed × Collection → Delivery × Feed × Collection
  | (.items [] total, c) => (.finished, .items [] total, c)
  | (.items (v :: vs) total, c) => (.record v, .items vs total, c)
  | (.search query options (some found), c) => ofFound query options c found
  | (.search query options none, c) =>
    match (Collection.list query options (.bool false)).run c with
    | (.ok found, c) => ofFound query options c found
    | (.error f, c) => (.failed f, .search query options none, c)
  | (.cursor cur, c) =>
    match cur.pending, cur.failure with
    | [], none => (.finished, .cursor cur, c)
    | [], some e =>
      match (Collection.driverFailure (α := Unit) "find_stream" .read e).run c with
      | (.error f, c) => (.failed f, .cursor cur, c)
      | (.ok (), c) => (.finished, .cursor cur, c)
    | r :: rest, _ =>
      match (Collection.documentOfReply r).run c with
      | (.ok v, c) => (.record v, .cursor { cur with pending := rest }, c)
      | (.error f, c) => (.failed f, .cursor { cur with pending := rest }, c)

def close : Feed × Collection → Feed × Collection
  | (.cursor cur, c) =>
    let closing := if cur.closeAwaited then [.cursorClosed, .closeAwaited] else [.cursorClosed]
    (.cursor cur, { c with trace := c.trace ++ closing })
  | s => s

/-- Documents still to come; a search is made ahead to count them. -/
def size : Feed × Collection → Nat
  | (.items rest _, _) => rest.length
  | (.search _ _ (some found), _) => found.documents.length
  | (.search query options none, c) =>
    match ((Collection.list query options (.bool false)).run c).1 with
    | .ok found => found.documents.length
    | .error _ => 0
  | (.cursor cur, _) => cur.pending.length

theorem size_ofFound {query : Query} {options : FindOptions} {c : Collection} {found : Found}
    {v : Value} {t : Feed × Collection} (h : ofFound query options c found = (.record v, t)) :
    size t < found.documents.length := by
  obtain ⟨documents, total⟩ := found
  cases documents with
  | nil => simp [ofFound] at h
  | cons w ws =>
    simp only [ofFound, Prod.mk.injEq] at h
    rw [← h.2]
    simp [size]

def source : Source (Feed × Collection) where
  next := next
  close := close
  size := size
  size_next {s t v} h := by
    match s with
    | (.items [] _, _) => simp [next] at h
    | (.items (w :: ws) _, _) =>
      simp only [next, Prod.mk.injEq] at h
      rw [← h.2]
      simp [size]
    | (.search _ _ (some found), _) => exact size_ofFound h
    | (.search query options none, c) =>
      simp only [next, size] at h ⊢
      split at h
      · rename_i found d hl
        rw [hl]
        exact size_ofFound h
      · simp at h
    | (.cursor ⟨[], none, _, _⟩, _) => simp [next] at h
    | (.cursor ⟨[], some e, _, _⟩, c) =>
      simp only [next] at h
      split at h <;> simp at h
    | (.cursor ⟨r :: rest, _, _, _⟩, c) =>
      simp only [next] at h
      split at h
      · simp only [Prod.mk.injEq] at h
        rw [← h.2]
        simp [size]
      · simp at h

end Feed

namespace Collection

def withStream {α : Type} (s : Stream Feed)
    (work : Stream (Feed × Collection) → α × Stream (Feed × Collection)) :
    StateM Collection (α × Stream Feed) := fun c =>
  let (a, t) := work (s.map (·, c))
  ((a, t.map Prod.fst), t.inner.2)

def next (s : Stream Feed) : StateM Collection (Delivery × Stream Feed) :=
  withStream s (Stream.next Feed.source)

def close (s : Stream Feed) : StateM Collection (Unit × Stream Feed) :=
  withStream s fun t => ((), t.close Feed.source)

def toList (s : Stream Feed) : StateM Collection (Except Failure (List Value) × Stream Feed) :=
  withStream s (Stream.toList Feed.source)

/-! ### Numbers and lists -/

def serverCount (server : Server) (query : Query) : Action Value := do
  let query := Query.explicit query
  refuseOperators "count" query
  return (← addressAndSend server "count" .read (.ok (.countDocuments query))).count

/-- The number of matches that a stream of the collection may tell at any time. -/
def streamTotal (s : Stream Feed) : Action Value := do
  match s.inner with
  | .items _ total => return .int total
  | .search query _ found =>
    match (found.map (·.total)).getD .null with
    | .null => match (← list query {} (.bool true)).total with
      | .null => unsupported "count"
      | n => return n
    | n => return n
  | .cursor cur => match (← get).backend with
    | .remote server => serverCount server cur.query
    | _ => unsupported "count"

/-- The documents that match, with their number if it is asked for. -/
def find (query : Query) (options : FindOptions) (total : Value) : Action Found := do
  match (← get).backend with
  | .bare => unsupported "find"
  | .listing .. => list query options total
  | _ =>
    let s ← openStream query options
    let (documents, s) ← toList s
    let documents ← ofExcept documents
    if total.truthy then return ⟨documents, ← streamTotal s⟩
    else return ⟨documents, .null⟩

def findOne (query : Query) (options : FindOptions) : Action Value := do
  let options := { options with skip := .int 0, limit := .int 1 }
  match (← find query options (.bool false)).documents with
  | v :: _ => return v
  | [] => refuse "find_one" .noMatch

def count (query : Query) : Action Value := do
  match (← get).backend with
  | .memory store => return .int (← ofStore "count" (store.count query))
  | .remote server => serverCount server query
  | _ => match (← find query {} (.bool true)).total with
    | .null => unsupported "count"
    | n => return n

end Collection

end RecordStore
