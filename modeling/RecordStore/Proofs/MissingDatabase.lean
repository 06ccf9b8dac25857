import RecordStore.Proofs.FilterOperators

/-! Operations of a collection on a server that was never named. Those that look their collection up
before they talk to the driver say so; those that look it up on the way to the driver take it for a
failure of the driver. -/
namespace RecordStore

def Phase.failed : Phase → Fault
  | read => .readFailed
  | write => .writeFailed

/-- Operations that take a database: those of a collection, and the saving and the removal of a
document in hand. -/
inductive DatabaseUse where
  | stream (query : Query) (options : FindOptions)
  | find (query : Query) (options : FindOptions) (total : Value)
  | aggregate (query : Query) (request options : Value)
  | count (query : Query)
  | insert (data : Value)
  | update (query : Query) (given choice : Value)
  | upsert (query : Query) (data : Value)
  | remove (query : Query)
  | save
  | drop

namespace DatabaseUse

def run [Present] : DatabaseUse → Handling Unit
  | stream query options => Handling.lift do let _ ← Collection.openStream query options
  | find query options total => Handling.lift do let _ ← Collection.find query options total
  | aggregate query request options =>
    Handling.lift do let _ ← Collection.aggregate query request options
  | count query => Handling.lift do let _ ← Collection.count query
  | insert data => Handling.lift (Collection.insert data)
  | update query given choice => Handling.lift do let _ ← Collection.update query given choice
  | upsert query data => Handling.lift (Collection.upsert query data)
  | remove query => Handling.lift do let _ ← Collection.remove query
  | save => Handling.save .remote
  | drop => Handling.remove .remote

def Plain (query : Query) : Prop := ¬ (Query.explicit query).HasOperator false

def Searches (c : Collection) (query : Query) (options : FindOptions) : Prop :=
  (QueryCall.stream options).Paged c ∧ Plain query ∧ (QueryCall.stream options).Fits c

/-- What an operation looks at by itself is fine, and no listener before it fails. -/
def Valid [Present] (c : Collection) (data : Value) : DatabaseUse → Prop
  | stream query options | find query options _ => Searches c query options
  | aggregate query request _ =>
    (∃ spec, (Aggregate.Request.given request).spec c.options.aggregate = .ok spec) ∧ Plain query
  | count query | upsert query _ | remove query => Plain query
  | insert _ => True
  | update query given choice => Plain query ∧
      ∃ operators, isOperatorValue given = .ok operators ∧
        (operators ∨ c.fullReplace choice = false)
  | save => (c.hooks.trigger Hooks.preSave data).result = .ok ()
  | drop => data.holds Handling.serverKey = .ok true ∧
      (c.hooks.trigger Hooks.preRemove data).result = .ok ()

/-- What the listeners before an operation heard, and how they leave the data. -/
def told (c : Collection) (data : Value) : DatabaseUse → Hooks.Told Value
  | save => c.hooks.trigger Hooks.preSave data
  | drop => c.hooks.trigger Hooks.preRemove data
  | _ => ⟨[], data, .ok ()⟩

/-- The operation that takes a missing database for a failure of the driver, and how far it is. An
upsert counts first. -/
def hiddenBehind : DatabaseUse → Option (String × Phase)
  | count _ | upsert .. => some ("count", .read)
  | insert _ => some ("insert", .write)
  | update .. => some ("update", .write)
  | remove _ => some ("remove", .write)
  | stream .. | find .. | aggregate .. | save | drop => none

end DatabaseUse

namespace Collection
variable {α : Type} {c : Collection} {server : Server} {query : Query} {options : FindOptions}

/-- The failure of a driver that was asked for a database that is missing. -/
def takenForDriver (operation : String) (phase : Phase) (c : Collection) : Failure :=
  .domain {
    fault := phase.failed, operation := .str operation, collection := c.name,
    cause := some .noServer }

/-- The collection with a line in its log about such a failure. -/
def withDriverLine (operation : String) (c : Collection) : Collection :=
  { c with trace := c.trace ++ [.driverFailed operation c.name .noServer] }

theorem addressAndSend_missing (h : ¬ server.connected) (operation : String) (phase : Phase)
    (r : Except Failure Request) (c : Collection) :
    (addressAndSend server operation phase r).run.run c =
      (.error (takenForDriver operation phase c), withDriverLine operation c) := by
  unfold addressAndSend
  rw [if_pos (by simp [h]), driverFailure_run]
  cases phase <;> rfl

/-! ### Operations that say so -/

theorem openStream_missing (hc : c.backend = .remote server) (h : ¬ server.connected)
    (hvalid : DatabaseUse.Searches c query options) :
    (openStream query options).run.run c = (.error .databaseMissing, c) := by
  obtain ⟨⟨⟨skip, hskip⟩, limit, hlimit⟩, hplain, projection, hfields⟩ := hvalid
  have hkey := Value.operatorIn?_eq_none_iff.mpr hplain
  rw [openStream_remote hc]
  apply run_bind_error
  unfold cursor
  rw [run_get]
  dsimp only
  rw [run_ofExcept hskip, run_ofExcept hlimit, run_bind_ok (refuseOperators_run hkey c),
    run_ofExcept hfields, run_bind_error (address_missing h c)]

theorem find_missing (hc : c.backend = .remote server) (h : ¬ server.connected)
    (hvalid : DatabaseUse.Searches c query options) (total : Value) :
    (find query options total).run.run c = (.error .databaseMissing, c) := by
  unfold find
  rw [run_get, hc]
  exact run_bind_error (openStream_missing hc h hvalid)

theorem searches_default (hplain : DatabaseUse.Plain query) :
    DatabaseUse.Searches c query {} :=
  ⟨⟨⟨_, Paging.skip_int 0⟩, _, rfl⟩, hplain, _, rfl⟩

theorem aggregate_missing [Present] (hc : c.backend = .remote server) (h : ¬ server.connected)
    (hplain : DatabaseUse.Plain query) {request : Value} {spec : Aggregate.Spec}
    (hspec : (Aggregate.Request.given request).spec c.options.aggregate = .ok spec)
    (options : Value) :
    (aggregate query request options).run.run c = (.error .databaseMissing, c) := by
  have hread : (readSpec request).run.run c = (.ok spec, c) := by
    rw [readSpec_run, hspec]
  unfold aggregate
  rw [run_get, hc]
  dsimp only
  rw [run_bind_ok hread]
  exact run_bind_error (openStream_missing hc h (searches_default hplain))

/-! ### Operations that take it for a failure of the driver -/

theorem count_missing (hc : c.backend = .remote server) (h : ¬ server.connected)
    (hplain : DatabaseUse.Plain query) : (count query).run.run c =
      (.error (takenForDriver "count" .read c), withDriverLine "count" c) := by
  rw [count_remote hc]
  unfold serverCount
  dsimp only
  rw [run_bind_ok (refuseOperators_run (Value.operatorIn?_eq_none_iff.mpr hplain) c)]
  exact run_bind_error (addressAndSend_missing h _ _ _ c)

theorem insert_missing (hc : c.backend = .remote server) (h : ¬ server.connected) (data : Value) :
    (insert data).run.run c =
      (.error (takenForDriver "insert" .write c), withDriverLine "insert" c) := by
  unfold insert
  rw [run_get, hc]
  exact run_bind_error (addressAndSend_missing h _ _ _ c)

theorem serverUpdate_run {given : Value} {operators fullReplace : Bool}
    (hread : isOperatorValue given = .ok operators) (hfits : operators ∨ fullReplace = false) :
    ∃ sent, (serverUpdate fullReplace given).run.run c = (.ok sent, c) := by
  obtain ⟨names, hnames, hpure⟩ := bind_eq_ok.mp hread
  unfold serverUpdate
  rw [run_ofExcept hnames, hpure]
  cases operators with
  | true => exact ⟨_, rfl⟩
  | false =>
    rw [show fullReplace = false by simpa using hfits]
    exact ⟨_, rfl⟩

theorem update_missing (hc : c.backend = .remote server) (h : ¬ server.connected)
    (hplain : DatabaseUse.Plain query) {given choice : Value} {operators : Bool}
    (hread : isOperatorValue given = .ok operators)
    (hfits : operators ∨ c.fullReplace choice = false) :
    (update query given choice).run.run c =
      (.error (takenForDriver "update" .write c), withDriverLine "update" c) := by
  obtain ⟨sent, hsent⟩ := serverUpdate_run (c := c) hread hfits
  rw [update_remote hc,
    run_bind_ok (refuseOperators_run (Value.operatorIn?_eq_none_iff.mpr hplain) c),
    run_bind_ok hsent]
  exact run_bind_error (addressAndSend_missing h _ _ _ c)

theorem remove_missing (hc : c.backend = .remote server) (h : ¬ server.connected)
    (hplain : DatabaseUse.Plain query) : (remove query).run.run c =
      (.error (takenForDriver "remove" .write c), withDriverLine "remove" c) := by
  rw [remove_remote hc,
    run_bind_ok (refuseOperators_run (Value.operatorIn?_eq_none_iff.mpr hplain) c)]
  exact run_bind_error (addressAndSend_missing h _ _ _ c)

end Collection

/-! ### Documents in hand -/

namespace Handling
open ServerCall (heardBy)
variable {c : Collection} {server : Server} {data : Value}

theorem lift_error {α : Type} {a : Action α} {f : Failure} {d : Collection}
    (h : a.run.run c = (.error f, d)) (data : Value) :
    (lift a).run.run (c, data) = (.error f, (d, data)) := by
  rw [lift_run, h]

theorem trigger_ok {event : Value} (h : (c.hooks.trigger event data).result = .ok ()) :
    (trigger event).run.run (c, data) = (.ok (),
      (heardBy c (c.hooks.trigger event data).heard, (c.hooks.trigger event data).subject)) := by
  rw [trigger_run, h]
  rfl

theorem save_missing (hc : c.backend = .remote server) (h : ¬ server.connected)
    (htold : (c.hooks.trigger Hooks.preSave data).result = .ok ()) :
    (save .remote).run.run (c, data) = (.error .databaseMissing,
      (heardBy c (c.hooks.trigger Hooks.preSave data).heard,
        (c.hooks.trigger Hooks.preSave data).subject)) := by
  unfold save
  rw [run_get]
  dsimp only
  rw [hc]
  dsimp only
  rw [run_bind_ok (trigger_ok htold)]
  apply run_bind_error
  exact run_bind_error (lift_error (Collection.address_missing h _) _)

theorem remove_missing (hc : c.backend = .remote server) (h : ¬ server.connected)
    (hkey : data.holds serverKey = .ok true)
    (htold : (c.hooks.trigger Hooks.preRemove data).result = .ok ()) :
    (remove .remote).run.run (c, data) = (.error .databaseMissing,
      (heardBy c (c.hooks.trigger Hooks.preRemove data).heard,
        (c.hooks.trigger Hooks.preRemove data).subject)) := by
  have hheld : (ofExcept (data.holds serverKey)).run.run (c, data) = (.ok true, (c, data)) := by
    rw [hkey]
    rfl
  unfold remove
  rw [run_get]
  dsimp only
  rw [hc]
  dsimp only
  change (ofExcept (data.holds serverKey) >>= _).run.run (c, data) = _
  rw [run_bind_ok hheld]
  change (trigger Hooks.preRemove >>= _).run.run (c, data) = _
  rw [run_bind_ok (trigger_ok htold)]
  apply run_bind_error
  exact run_bind_error (lift_error (Collection.address_missing h _) _)

end Handling

namespace DatabaseUse
open Collection ServerCall
variable {c : Collection} {server : Server} {data : Value}

theorem run_of_told [Present] (hc : c.backend = .remote server) (h : ¬ server.connected)
    (use : DatabaseUse) (hvalid : use.Valid c data) (hnone : use.hiddenBehind = none) :
    use.run.run.run (c, data) = (.error .databaseMissing,
      (heardBy c (use.told c data).heard, (use.told c data).subject)) := by
  have hlift {α : Type} {a : Action α} (hrun : a.run.run c = (.error .databaseMissing, c)) :
      (Handling.lift do let _ ← a : Handling Unit).run.run (c, data) =
        (.error .databaseMissing, (heardBy c [], data)) := by
    rw [heardBy_nil]
    exact Handling.lift_error (run_bind_error hrun) data
  cases use with
  | stream query options => exact hlift (openStream_missing hc h hvalid)
  | find query options total => exact hlift (find_missing hc h hvalid total)
  | aggregate query request options =>
    obtain ⟨⟨spec, hspec⟩, hplain⟩ := hvalid
    exact hlift (aggregate_missing hc h hplain hspec options)
  | save => exact Handling.save_missing hc h hvalid
  | drop => exact Handling.remove_missing hc h hvalid.1 hvalid.2
  | _ => cases hnone

theorem run_of_hidden [Present] (hc : c.backend = .remote server) (h : ¬ server.connected)
    (use : DatabaseUse) (hvalid : use.Valid c data) {operation : String} {phase : Phase}
    (hsome : use.hiddenBehind = some (operation, phase)) :
    use.run.run.run (c, data) =
      (.error (takenForDriver operation phase c), (withDriverLine operation c, data)) := by
  cases use with
  | count query =>
    cases hsome
    exact Handling.lift_error (run_bind_error (count_missing hc h hvalid)) data
  | insert given =>
    cases hsome
    exact Handling.lift_error (insert_missing hc h given) data
  | update query given choice =>
    cases hsome
    obtain ⟨hplain, operators, hread, hfits⟩ := hvalid
    exact Handling.lift_error (run_bind_error (update_missing hc h hplain hread hfits)) data
  | upsert query given =>
    cases hsome
    exact Handling.lift_error (run_bind_error (count_missing hc h hvalid)) data
  | remove query =>
    cases hsome
    exact Handling.lift_error (run_bind_error (remove_missing hc h hvalid)) data
  | _ => cases hsome

/-- A database that is missing is reported as such by the operations that are not hidden behind a
driver, and by no other. They fail so once the listeners before them are through, with nothing else
done. The others fail as the driver would in their phase, with the missing database for a cause and
a line in the log. -/
theorem missing_database_reported_iff [Present] (hc : c.backend = .remote server)
    (h : ¬ server.connected) (data : Value) (use : DatabaseUse) (hvalid : use.Valid c data) :
    let out := use.run.run.run (c, data)
    (out.1 = .error .databaseMissing ↔ use.hiddenBehind = none) ∧
      (use.hiddenBehind = none → out = (.error .databaseMissing,
        (heardBy c (use.told c data).heard, (use.told c data).subject))) ∧
      ∀ operation phase, use.hiddenBehind = some (operation, phase) → out =
        (.error (takenForDriver operation phase c), (withDriverLine operation c, data)) := by
  intro out
  have htold := run_of_told hc h use hvalid
  have hhidden (operation : String) (phase : Phase)
      (hsome : use.hiddenBehind = some (operation, phase)) := run_of_hidden hc h use hvalid hsome
  refine ⟨⟨fun hout => ?_, fun hnone => congrArg Prod.fst (htold hnone)⟩, htold, hhidden⟩
  cases hbehind : use.hiddenBehind with
  | none => rfl
  | some behind =>
    have hfails : out.1 = .error (takenForDriver behind.1 behind.2 c) :=
      congrArg Prod.fst (hhidden behind.1 behind.2 hbehind)
    rw [hfails] at hout
    cases hout

/-- A removal of a document in hand, and a count. -/
theorem missing_database_reported_iff_of_two :
    let server : Server := { collection := .str "animal", connected := false }
    let c : Collection := { name := .str "Animal", backend := .remote server }
    let rex : Value := .object [("_id", .int 1)]
    c.backend = .remote server ∧ ¬ server.connected ∧ drop.Valid c rex ∧
      (drop.run.run.run (c, rex)).1 = .error .databaseMissing ∧
      (count .null).Valid c rex ∧
      ((count .null).run.run.run (c, rex)).1 ≠ .error .databaseMissing := by
  intro server c rex
  have hconnected : ¬ server.connected := Bool.false_ne_true
  have hdrop : drop.Valid c rex := ⟨rfl, rfl⟩
  have hcount : (count .null).Valid c rex := Value.operatorIn?_eq_none_iff.mp rfl
  obtain ⟨hiff, -⟩ := missing_database_reported_iff (c := c) rfl hconnected rex drop hdrop
  obtain ⟨hcountIff, -⟩ :=
    missing_database_reported_iff (c := c) rfl hconnected rex (count .null) hcount
  exact ⟨rfl, hconnected, hdrop, hiff.mpr rfl, hcount,
    fun hreported => nomatch hcountIff.mp hreported⟩

/-- A count of everything in a database that is missing fails as a query does. -/
theorem missing_database_hidden :
    let server : Server := { collection := .str "animal", connected := false }
    let c : Collection := { name := .str "Animal", backend := .remote server }
    (count .null).Valid c .null ∧ ((count .null).run.run.run (c, .null)).1 =
      .error (.domain {
        fault := .readFailed, operation := .str "count", collection := .str "Animal",
        cause := some .noServer }) := by
  intro server c
  exact ⟨Value.operatorIn?_eq_none_iff.mp rfl, rfl⟩

end DatabaseUse

end RecordStore
