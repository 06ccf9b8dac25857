import RecordStore.Collection.Filter
import RecordStore.Text.Lowercase
import RecordStore.Value.Sort

/-! A database server as a collection sees it: the requests that it gets, and its replies. -/
namespace RecordStore

/-- Requests to a server. Those from `sort` to `limit` go to the cursor that `find` opened. -/
inductive Request where
  | find (query : Query) (projection : Option Record)
  | sort (keys : List SortKey)
  | skip (n : Value)
  | limit (n : Value)
  | countDocuments (query : Query)
  | insertOne (document : Value)
  | replaceOne (filter : Filter) (document : Value)
  | updateMany (query : Query) (update : Value)
  | deleteOne (filter : Filter)
  | deleteMany (query : Query)

/-- Whether a server answers a request. What goes to a cursor is not answered. -/
def Request.isAnswered : Request → Bool
  | .sort _ | .skip _ | .limit _ => false
  | _ => true

namespace DriverError

def fault (phase : Phase) (e : DriverError) : Fault :=
  if e.isDuplicate then .duplicateReported
  else if e.isConnection then .connectionLost phase
  else match phase with
    | .read => .readFailed
    | .write => .writeFailed

/-- A server that was never named fails like a driver. -/
def noServer : DriverError := .reported ["RuntimeError"] none

/-- A request or reply that is not what it should be fails like a driver too. -/
def ofFailure : Failure → DriverError
  | .lacksOperation => .reported ["AttributeError"] none
  | .notPair => .reported ["ValueError"] none
  | _ => .reported ["TypeError"] none

end DriverError

/-- What a server answers; none is what it does not tell. -/
structure Reply where
  documents : List Value := []
  count : Value := .int 0
  matched : Option Value := none
  deleted : Option Value := none
  inserted : Option Value := none
  /-- The key that the driver puts into a new record that it was handed, before it sends it. -/
  assigned : Option Value := none
  error : Option DriverError := none
  /-- Documents that a cursor gives before the error. -/
  failAfter : Value := .int 0
  closeAwaited : Bool := false

def Reply.told : Option Value → Except Failure Value
  | some v => .ok v
  | none => .error .lacksOperation

/-- A collection on a server, which answers request by request: the first ones with the listed
replies, and every later one with the last. -/
structure Server where
  collection : Value
  connected : Bool := true
  replies : List Reply := []
  reply : Reply := {}

/-- The reply to a request behind so many others. -/
def Server.replyTo (server : Server) (asked : Nat) : Reply :=
  server.replies.getD asked server.reply

/-- The server of a collection. Without a name of its own its collection has the name in small
letters. -/
def Server.ofNames (name own : Value) (connected : Bool) : Except Failure Server :=
  if own.truthy then .ok { collection := own, connected }
  else match name with
    | .str s => .ok { collection := .str (Text.lower s), connected }
    | _ => .error .lacksOperation

/-- Documents still to come from a cursor, and how it ends. -/
structure Cursor where
  pending : List Value
  failure : Option DriverError
  query : Query
  closeAwaited : Bool

/-- The cursor that a reply opens. An error beyond the end is never met. -/
def Reply.cursor (reply : Reply) (query : Query) : Cursor :=
  let reached := (List.range (reply.documents.length + 1)).find? fun (n : Nat) =>
    reply.error.isSome && reply.failAfter.eq (.int n)
  match reached with
  | some n => ⟨reply.documents.take n, reply.error, query, reply.closeAwaited⟩
  | none => ⟨reply.documents, none, query, reply.closeAwaited⟩

def projectionOf (fields : Value) : Except Failure (Option Record) :=
  if !fields.truthy then .ok none
  else do
    let fields ← fields.elements
    if !Value.areKeys fields then throw .incomparable
    let named := fields.foldl (fun ps v => Value.putPair v (.int 1) ps) []
    return some (named.map fun (v, one) => (v.memberName, one))

def cursorKey (s : String) : SortKey :=
  ⟨String.ofList (s.toList.dropWhile (· = '-')), s.toList.head? = some '-'⟩

def cursorKeys (sort : Value) : Except Failure (List SortKey) :=
  if !sort.truthy then .ok []
  else do (← sort.elements).mapM fun v => do return cursorKey (← v.name)

end RecordStore
