import RecordStore.Proofs.Actions

/-! Calls of a server, some of which its driver may fail. Whatever the error, the operation that
made the call fails with the failure of its kind, and no listener is told behind the call. -/
namespace RecordStore

/-- A request that is answered at once. A search is answered as its cursor is read. -/
def Request.isCall : Request → Bool
  | .countDocuments _ | .insertOne _ | .replaceOne .. | .updateMany .. | .deleteOne _
  | .deleteMany _ => true
  | _ => false

/-- What a call does to the records. -/
def Request.phase : Request → Phase
  | .countDocuments _ => .read
  | _ => .write

/-- The operation of a collection that makes a call. A document in hand is replaced when it is
saved. -/
def Request.operation : Request → String
  | .countDocuments _ => "count"
  | .insertOne _ => "insert"
  | .updateMany .. => "update"
  | .replaceOne .. => "save"
  | .deleteOne _ | .deleteMany _ => "remove"
  | _ => "find_stream"

def Event.isQuiet : Event → Bool
  | .heard _ => false
  | .request r => !r.isCall
  | _ => true

def Event.isSilent : Event → Bool
  | .request r => !r.isCall
  | _ => true

namespace DriverError

def failure (operation : String) (phase : Phase) (collection : Value) : DriverError → Failure
  | .cancelled => .cancelled
  | e => .domain {
      fault := e.fault phase, operation := .str operation, collection, cause := some e }

def logged (operation : String) (collection : Value) : DriverError → List Event
  | .cancelled => []
  | e => [.driverFailed operation collection e]

/-- The kind of failure for the names and the code of an error. -/
def kind (phase : Phase) (types : List String) (code : Option Value) : FaultKind :=
  if types.head? = some "DuplicateKeyError" || code.any fun n => n.eq (.int 11000) then .duplicate
  else if types.any fun name => name ∈
    ["ConnectionFailure", "ServerSelectionTimeoutError", "AutoReconnect", "NetworkTimeout"]
  then .connection
  else match phase with
    | .read => .query
    | .write => .general

/-- What a caller has to get for an error: a cancellation as it is, and for any other error the
failure of its kind, which names the collection and has the error as its cause. -/
def RaisedAs (operation : String) (phase : Phase) (collection : Value) :
    DriverError → Failure → Prop
  | .cancelled, f => f = .cancelled
  | .reported types code, f => ∃ fault : Fault, fault.kind = kind phase types code ∧
      f = .domain {
        fault, operation := .str operation, collection, cause := some (.reported types code) }

def Raised {α : Type} (operation : String) (phase : Phase) (collection : Value) (e : DriverError)
    (outcome : Except Failure α) : Prop :=
  ∃ f, outcome = .error f ∧ e.RaisedAs operation phase collection f

section
variable {operation : String} {phase : Phase} {collection : Value}

theorem fault_kind (types : List String) (code : Option Value) :
    ((reported types code).fault phase).kind = kind phase types code := by
  unfold fault kind
  change Fault.kind (if (reported types code).isDuplicate then _ else
    if (reported types code).isConnection then _ else _) =
    if (reported types code).isDuplicate then _ else
    if (reported types code).isConnection then _ else _
  split
  · rfl
  · split
    · rfl
    · cases phase <;> rfl

theorem failure_raisedAs (e : DriverError) :
    e.RaisedAs operation phase collection (e.failure operation phase collection) := by
  cases e with
  | cancelled => exact rfl
  | reported types code => exact ⟨_, fault_kind types code, rfl⟩

theorem raised_of_eq {α : Type} {e : DriverError} {outcome : Except Failure α}
    (h : outcome = .error (e.failure operation phase collection)) :
    e.Raised operation phase collection outcome := ⟨_, h, e.failure_raisedAs⟩

theorem failure_not_streamClosed (e : DriverError) :
    (e.failure operation phase collection).isStreamClosed = false := by
  cases e with
  | cancelled => rfl
  | reported types code =>
    change decide (((reported types code).fault phase).kind = .streamClosed) = false
    rw [fault_kind, decide_eq_false_iff_not]
    unfold kind
    split
    · simp
    · split
      · simp
      · cases phase <;> simp

theorem heard_not_mem_logged (e : DriverError) (h : Hooks.Heard) :
    .heard h ∉ e.logged operation collection := by
  cases e <;> simp [logged]

end

end DriverError

/-! ### Calls -/

namespace Server
variable {server : Server} {n : Nat} {xs ys : List Event}

/-- Every call among events is answered without an error, behind so many answered requests. -/
def Answers (server : Server) (n : Nat) (events : List Event) : Prop :=
  ∀ before r after, events = before ++ .request r :: after → r.isCall →
    (server.replyTo (n + before.countP Event.isAnswered)).error = none

theorem answers_of_silent (h : ∀ x ∈ xs, x.isSilent) : server.Answers n xs := by
  intro before r after hxs hr
  have hsilent := h (.request r) (by rw [hxs]; simp)
  simp [Event.isSilent, hr] at hsilent

theorem answers_nil : server.Answers n [] :=
  answers_of_silent (by simp)

theorem answers_singleton {r : Request} (h : (server.replyTo n).error = none) :
    server.Answers n [.request r] := by
  intro before r' after hxs hr
  obtain ⟨rfl, -⟩ | ⟨-, hnil⟩ := List.append_eq_singleton_iff.mp hxs.symm
  · exact h
  · cases hnil

theorem Answers.append (hx : server.Answers n xs)
    (hy : server.Answers (n + xs.countP Event.isAnswered) ys) : server.Answers n (xs ++ ys) := by
  intro before r after hxs hr
  obtain ⟨rest, rfl, hrest⟩ | ⟨rest, rfl, hrest⟩ := List.append_eq_append_iff.mp hxs
  · have herror := hy rest r after hrest hr
    rwa [Nat.add_assoc, ← List.countP_append] at herror
  · cases rest with
    | nil =>
      rw [List.append_nil] at hy
      have herror := hy [] r after hrest.symm hr
      rwa [List.countP_nil, Nat.add_zero] at herror
    | cons x rest =>
      obtain ⟨rfl, -⟩ := List.cons.inj hrest
      exact hx before r rest rfl hr

/-- Behind calls that are answered, and with none behind it, one call is the one that fails. -/
theorem Answers.split {q r : Request} {before after : List Event} {e : DriverError}
    (hx : server.Answers n xs) (hy : ∀ y ∈ ys, y.isSilent)
    (h : xs ++ .request q :: ys = before ++ .request r :: after) (hr : r.isCall)
    (he : (server.replyTo (n + before.countP Event.isAnswered)).error = some e) :
    before = xs ∧ r = q ∧ after = ys := by
  obtain ⟨rest, rfl, hrest⟩ | ⟨rest, rfl, hrest⟩ := List.append_eq_append_iff.mp h
  · cases rest with
    | nil =>
      cases hrest
      exact ⟨List.append_nil _, rfl, rfl⟩
    | cons x rest =>
      obtain ⟨-, rfl⟩ := List.cons.inj hrest
      have hsilent := hy (.request r) (by simp)
      simp [Event.isSilent, hr] at hsilent
  · cases rest with
    | nil =>
      cases hrest
      exact ⟨(List.append_nil _).symm, rfl, rfl⟩
    | cons x rest =>
      obtain ⟨rfl, -⟩ := List.cons.inj hrest
      rw [hx before r rest rfl hr] at he
      cases he

end Server

section
variable {σ α β : Type}

/-- An action takes a step; if the step is one with a failure, this is what the action gives. -/
def ReportsAt (step : σ → Option Failure → σ → Prop) (a : ExceptT Failure (StateM σ) α) (s : σ) :
    Prop := ∃ x, step s x (a.run.run s).2 ∧ ∀ f ∈ x, (a.run.run s).1 = .error f

def Reports (step : σ → Option Failure → σ → Prop) (a : ExceptT Failure (StateM σ) α) : Prop :=
  ∀ s, ReportsAt step a s

variable {step : σ → Option Failure → σ → Prop} {a : ExceptT Failure (StateM σ) α}
  {f : α → ExceptT Failure (StateM σ) β}

theorem reportsAt_of_run {s t : σ} {r : Except Failure α} {x : Option Failure}
    (h : a.run.run s = (r, t)) (hx : step s x t) (hfails : ∀ f ∈ x, r = .error f) :
    ReportsAt step a s := by
  unfold ReportsAt
  rw [h]
  exact ⟨x, hx, hfails⟩

theorem ReportsAt.discard {s : σ} (h : ReportsAt step a s) :
    ReportsAt step (do let _ ← a) s := by
  obtain ⟨x, hx, hfails⟩ := h
  refine ⟨x, ?_, fun g hg => ?_⟩
  · rw [run_bind_pure_state]
    exact hx
  · rw [run_bind_error (Prod.ext (hfails g hg) rfl)]

theorem ReportsAt.bind {s : σ} (htrans : ∀ {t u x}, step s none t → step t x u → step s x u)
    (ha : ReportsAt step a s) (hf : ∀ y t, step s none t → ReportsAt step (f y) t) :
    ReportsAt step (a >>= f) s := by
  obtain ⟨x, hx, hfails⟩ := ha
  cases h : a.run.run s with
  | mk r t =>
    rw [h] at hx hfails
    cases r with
    | error e =>
      exact reportsAt_of_run (run_bind_error h) hx fun g hg => by cases hfails g hg; rfl
    | ok y =>
      cases x with
      | none =>
        obtain ⟨z, hz, hthen⟩ := hf y t hx
        exact reportsAt_of_run (run_bind_ok h) (htrans hx hz) hthen
      | some g => cases hfails g rfl

theorem Reports.bind (htrans : ∀ {s t u x}, step s none t → step t x u → step s x u)
    (ha : Reports step a) (hf : ∀ y, Reports step (f y)) : Reports step (a >>= f) :=
  fun s => (ha s).bind htrans fun y t _ => hf y t

end

namespace Collection

/-- A collection goes on, and the calls that it makes are answered; or the driver fails one of them.
Nothing but the trace changes, and no listener is told. -/
inductive Asked (server : Server) (c : Collection) : Option Failure → Collection → Prop
  | answered {events : List Event} (h : server.Answers c.asked events)
      (quiet : ∀ h, .heard h ∉ events) :
      Asked server c none { c with trace := c.trace ++ events }
  | failed {events : List Event} {r : Request} {e : DriverError}
      (h : server.Answers c.asked events) (quiet : ∀ h, .heard h ∉ events) (hr : r.isCall)
      (he : (server.replyTo (c.asked + events.countP Event.isAnswered)).error = some e) :
      Asked server c (some (e.failure r.operation r.phase c.name))
        { c with trace := c.trace ++ (events ++ .request r :: e.logged r.operation c.name) }

section
variable {α β : Type} {c d : Collection} {server : Server} {e : DriverError} {operation : String}
  {phase : Phase}

theorem asked_append (c : Collection) (events : List Event) :
    asked { c with trace := c.trace ++ events } = c.asked + events.countP Event.isAnswered :=
  List.countP_append

theorem Asked.quietly {events : List Event} (h : ∀ x ∈ events, x.isQuiet) :
    Asked server c none { c with trace := c.trace ++ events } := by
  refine .answered (Server.answers_of_silent fun x hx => ?_) fun heard hmem => by cases h _ hmem
  have hquiet := h x hx
  cases x <;> first | rfl | exact hquiet

theorem Asked.stay : Asked server c none c := by
  have h : Asked server c none { c with trace := c.trace ++ [] } := .quietly (by simp)
  rwa [List.append_nil] at h

theorem Asked.backend (h : Asked server c none d) : d.backend = c.backend := by
  cases h
  rfl

theorem Asked.trans {x : Option Failure} {t u : Collection} (h : Asked server c none t)
    (ht : Asked server t x u) : Asked server c x u := by
  cases h with
  | @answered xs hx hquiet =>
    cases ht with
    | @answered ys hy hquiet' =>
      rw [asked_append] at hy
      have h : Asked server c none _ := .answered (hx.append hy) fun h hmem =>
        (List.mem_append.mp hmem).elim (hquiet h) (hquiet' h)
      rwa [← List.append_assoc] at h
    | @failed ys r e hy hquiet' hr he =>
      rw [asked_append] at hy he
      rw [Nat.add_assoc, ← List.countP_append] at he
      have h : Asked server c (some (e.failure r.operation r.phase c.name)) _ :=
        .failed (hx.append hy) (fun h hmem =>
          (List.mem_append.mp hmem).elim (hquiet h) (hquiet' h)) hr he
      rwa [List.append_assoc, ← List.append_assoc] at h

theorem reports_of_still {a : Action α} (h : ∀ c, (a.run.run c).2 = c) :
    Reports (Asked server) a := by
  intro c
  refine ⟨none, ?_, by simp⟩
  rw [h]
  exact .stay

theorem reports_note {x : Event} (h : x.isQuiet) : Reports (Asked server) (note x) :=
  fun _ => ⟨none, .quietly (List.forall_mem_singleton.mpr h), by simp⟩

theorem reports_ofExcept (r : Except Failure α) : Reports (Asked server) (ofExcept r) :=
  reports_of_still fun c => by rw [ofExcept_run]

/-! A driver failure comes with a line in the log. -/

theorem driverFailure_run (e : DriverError) (c : Collection) :
    (driverFailure operation phase e : Action α).run.run c =
      (.error (e.failure operation phase c.name),
        { c with trace := c.trace ++ e.logged operation c.name }) := by
  cases e with
  | cancelled =>
    change (Except.error Failure.cancelled, c) = (_, { c with trace := c.trace ++ [] })
    rw [List.append_nil]
    rfl
  | reported types code => rfl

theorem reports_driverFailure (word : String) (part : Phase) (other : DriverError) :
    Reports (Asked server) (driverFailure word part other : Action α) := by
  intro c
  refine reportsAt_of_run (driverFailure_run other c) (.quietly fun x hx => ?_) (by simp)
  cases other with
  | cancelled => cases hx
  | reported types code =>
    obtain rfl := List.mem_singleton.mp hx
    rfl

theorem comingReply_run (c : Collection) :
    (comingReply server).run.run c = (.ok (server.replyTo c.asked), c) :=
  rfl

theorem send_run (operation : String) (phase : Phase) (r : Request) (c : Collection) :
    (send server operation phase r).run.run c =
      match (server.replyTo c.asked).error with
      | some e => (.error (e.failure operation phase c.name),
          { c with trace := c.trace ++ .request r :: e.logged operation c.name })
      | none => (.ok (server.replyTo c.asked), { c with trace := c.trace ++ [.request r] }) := by
  have hnote : (note (.request r)).run.run c =
      (.ok (), { c with trace := c.trace ++ [.request r] }) := rfl
  unfold send
  rw [run_bind_ok (comingReply_run c), run_bind_ok hnote]
  cases (server.replyTo c.asked).error with
  | none => rfl
  | some e =>
    dsimp only
    rw [driverFailure_run, List.append_assoc]
    rfl

theorem reports_send {r : Request} (hr : r.isCall) :
    Reports (Asked server) (send server r.operation r.phase r) := by
  intro c
  have hrun : (send server r.operation r.phase r).run.run c = _ :=
    send_run r.operation r.phase r c
  cases he : (server.replyTo c.asked).error with
  | none =>
    rw [he] at hrun
    exact reportsAt_of_run hrun (.answered (Server.answers_singleton he) (by simp)) (by simp)
  | some e =>
    rw [he] at hrun
    refine reportsAt_of_run hrun (.failed Server.answers_nil (by simp) hr he) fun f hf => ?_
    cases hf
    rfl

theorem address_run (h : server.connected) (c : Collection) :
    (address server).run.run c =
      (.ok (), { c with trace := c.trace ++ [.addressed server.collection] }) := by
  unfold address
  rw [if_pos h]
  rfl

theorem address_missing (h : ¬ server.connected) (c : Collection) :
    (address server).run.run c = (.error .databaseMissing, c) := by
  unfold address
  rw [if_neg h]
  rfl

theorem reports_address (server : Server) : Reports (Asked server) (address server) := by
  unfold address
  split
  · exact reports_note rfl
  · exact reports_of_still fun _ => rfl

theorem reports_addressAndSend {r : Except Failure Request}
    (hr : ∀ q, r = .ok q → q.isCall ∧ q.operation = operation ∧ q.phase = phase) :
    Reports (Asked server) (addressAndSend server operation phase r) := by
  unfold addressAndSend
  split
  · exact reports_driverFailure _ _ _
  · refine (reports_address server).bind Asked.trans fun _ => ?_
    split
    · obtain ⟨hcall, rfl, rfl⟩ := hr _ rfl
      exact reports_send hcall
    · exact reports_driverFailure _ _ _

end

/-! ### Operations of a collection -/

section
variable {c : Collection} {server : Server}

theorem reports_refuseOperators (word : String) (query : Query) :
    Reports (Asked server) (refuseOperators word query) :=
  fun c => reports_ofExcept _ c

theorem reports_serverCount (query : Query) :
    Reports (Asked server) (serverCount server query) :=
  (reports_refuseOperators _ _).bind Asked.trans fun _ =>
    (reports_addressAndSend fun _ h => by cases h; exact ⟨rfl, rfl, rfl⟩).bind Asked.trans fun _ =>
      reports_of_still fun _ => rfl

section
variable (hc : c.backend = .remote server)
include hc

theorem reportsAt_count (query : Query) : ReportsAt (Asked server) (count query) c := by
  unfold count ReportsAt
  rw [run_get, hc]
  exact reports_serverCount query c

theorem reportsAt_insert (data : Value) : ReportsAt (Asked server) (insert data) c := by
  unfold insert ReportsAt
  rw [run_get, hc]
  refine (reports_addressAndSend fun q hq => ?_).bind Asked.trans (fun _ => ?_) c
  · obtain ⟨r, -, rfl⟩ := map_eq_ok.mp hq
    exact ⟨rfl, rfl, rfl⟩
  · exact reports_of_still fun _ => rfl

theorem reportsAt_remove (query : Query) : ReportsAt (Asked server) (remove query) c := by
  unfold remove ReportsAt
  rw [run_get, hc]
  exact ((reports_refuseOperators _ _).bind Asked.trans fun _ =>
    (reports_addressAndSend fun _ h => by cases h; exact ⟨rfl, rfl, rfl⟩).bind Asked.trans
      fun _ => reports_ofExcept _) c

omit hc in
theorem reports_serverUpdate (fullReplace : Bool) (given : Value) :
    Reports (Asked server) (serverUpdate fullReplace given) := by
  refine (reports_ofExcept _).bind Asked.trans fun names => reports_of_still fun c => ?_
  split
  · rfl
  · rfl
  · split <;> rfl

theorem reportsAt_update (query : Query) (given choice : Value) :
    ReportsAt (Asked server) (update query given choice) c := by
  unfold update ReportsAt
  rw [run_get]
  dsimp only
  rw [run_get, hc]
  exact ((reports_refuseOperators _ _).bind Asked.trans fun _ =>
    (reports_serverUpdate _ _).bind Asked.trans fun _ =>
      (reports_addressAndSend fun _ h => by cases h; exact ⟨rfl, rfl, rfl⟩).bind Asked.trans
        fun _ => reports_ofExcept _) c

theorem reportsAt_upsert (query : Query) (data : Value) :
    ReportsAt (Asked server) (upsert query data) c := by
  unfold upsert
  refine (reportsAt_count hc query).bind Asked.trans fun n d hd => ?_
  have hd : d.backend = .remote server := hd.backend.trans hc
  split
  · exact reports_of_still (fun _ => rfl) d
  · exact (reportsAt_update hd query data .null).discard
  · refine (reports_ofExcept _ d).bind Asked.trans fun r t ht => ?_
    exact reportsAt_insert (ht.backend.trans hd) _

theorem streamTotal_cursor {s : Stream Feed} {cur : Cursor} (hs : s.inner = .cursor cur) :
    (streamTotal s).run.run c = (serverCount server cur.query).run.run c := by
  unfold streamTotal
  rw [hs]
  dsimp only
  rw [run_get, hc]

theorem reportsAt_streamTotal (s : Stream Feed) :
    ReportsAt (Asked server) (streamTotal s) c := by
  obtain ⟨name, inner, closed, exhausted, releases⟩ := s
  cases inner with
  | items rest total => exact ⟨none, .stay, by simp⟩
  | search query options found =>
    have hlist : (list query {} (.bool true)).run.run c =
        (unsupported "find" : Action Found).run.run c := by
      unfold list
      rw [run_get, hc]
    unfold streamTotal ReportsAt
    dsimp only
    split
    · rw [run_bind_error hlist]
      exact ⟨none, .stay, by simp⟩
    · exact ⟨none, .stay, by simp⟩
  | cursor cur =>
    unfold ReportsAt
    rw [streamTotal_cursor hc rfl]
    exact reports_serverCount cur.query c

end

end

end Collection

end RecordStore
