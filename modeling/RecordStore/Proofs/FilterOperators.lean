import RecordStore.Proofs.DriverFailures
import RecordStore.Proofs.FieldUpdates

/-! What goes to a server for a query. A filter goes there as it is, unless it has an operator
anywhere but in a tuple; an update goes there with nothing but operators. -/
namespace RecordStore

/-! ### Operators in a value -/

namespace Value

/-- A name of a member somewhere in a value, looking into objects and lists, and into tuples only if
that is asked for. -/
inductive Names (tuples : Bool) (s : String) : Value → Prop
  | member {name : Name} {v : Value} {ms : Record} (hm : (name, v) ∈ ms) (hs : name.reading = s) :
      Names tuples s (object ms)
  | under {name : Name} {v : Value} {ms : Record} (hm : (name, v) ∈ ms) (hv : Names tuples s v) :
      Names tuples s (object ms)
  | item {v : Value} {xs : List Value} (hx : v ∈ xs) (hv : Names tuples s v) :
      Names tuples s (list xs)
  | part {v : Value} {xs : List Value} (ht : tuples) (hx : v ∈ xs) (hv : Names tuples s v) :
      Names tuples s (tuple xs)

def HasOperator (tuples : Bool) (v : Value) : Prop := ∃ s, isOperator s ∧ v.Names tuples s

theorem operatorInMembers?_eq (ms : Record) : operatorInMembers? ms =
    ms.findSome? fun m =>
      if isOperator m.1.reading then some m.1.reading else m.2.operatorIn? := by
  induction ms with
  | nil => rfl
  | cons m ms ih =>
    rw [operatorInMembers?, List.findSome?_cons, ih]
    split
    · rfl
    · cases m.2.operatorIn? <;> rfl

theorem operatorInList?_eq (xs : List Value) :
    operatorInList? xs = xs.findSome? operatorIn? := by
  induction xs with
  | nil => rfl
  | cons x xs ih =>
    rw [operatorInList?, List.findSome?_cons, ih]
    cases x.operatorIn? <;> rfl

variable {v : Value} {s : String}

theorem names_of_operatorIn? (h : v.operatorIn? = some s) : isOperator s ∧ v.Names false s := by
  induction v using nested with
  | object ms ih =>
    rw [operatorIn?, operatorInMembers?_eq] at h
    obtain ⟨m, hm, hfound⟩ := List.exists_of_findSome?_eq_some h
    split at hfound
    · cases hfound
      exact ⟨‹_›, .member hm rfl⟩
    · obtain ⟨hs, hnames⟩ := ih m hm hfound
      exact ⟨hs, .under hm hnames⟩
  | list xs ih =>
    rw [operatorIn?, operatorInList?_eq] at h
    obtain ⟨x, hx, hfound⟩ := List.exists_of_findSome?_eq_some h
    obtain ⟨hs, hnames⟩ := ih x hx hfound
    exact ⟨hs, .item hx hnames⟩
  | _ => cases h

theorem operatorIn?_isSome_of_names (h : v.Names false s) (hs : isOperator s) :
    v.operatorIn?.isSome := by
  induction h with
  | member hm hname =>
    rw [operatorIn?, operatorInMembers?_eq, List.findSome?_isSome_iff]
    exact ⟨_, hm, by simp [hname, hs]⟩
  | under hm _ ih =>
    rw [operatorIn?, operatorInMembers?_eq, List.findSome?_isSome_iff]
    refine ⟨_, hm, ?_⟩
    split
    · rfl
    · exact ih
  | item hx _ ih =>
    rw [operatorIn?, operatorInList?_eq, List.findSome?_isSome_iff]
    exact ⟨_, hx, ih⟩
  | part ht => cases ht

theorem hasOperator_iff : v.HasOperator false ↔ ∃ s, v.operatorIn? = some s := by
  constructor
  · rintro ⟨s, hs, hnames⟩
    exact Option.isSome_iff_exists.mp (operatorIn?_isSome_of_names hnames hs)
  · rintro ⟨s, hfound⟩
    exact ⟨s, names_of_operatorIn? hfound⟩

theorem operatorIn?_eq_none_iff : v.operatorIn? = none ↔ ¬ v.HasOperator false := by
  rw [hasOperator_iff, ← Option.isSome_iff_exists, Bool.not_eq_true, Option.isSome_eq_false_iff,
    Option.isNone_iff_eq_none]

end Value

/-! ### Updates -/

namespace Update

def IsMixed (data : Record) : Prop :=
  (Record.keys data).any isOperator ∧ ¬ (Record.keys data).all isOperator

theorem expanded_operators {data : Record} (h : ¬ IsMixed data) :
    ∀ name ∈ Record.keys (expanded data), isOperator name := by
  rw [expanded]
  split
  · rename_i hany
    exact List.all_eq_true.mp (not_not.mp (not_and.mp h hany))
  · exact List.forall_mem_singleton.mpr (by decide : isOperator setName)

end Update

theorem Query.explicit_object (filter : Filter) :
    Query.explicit (.object filter) = .object filter := by
  cases filter <;> rfl

/-! ### Requests -/

def Request.isSetting : Request → Bool
  | .sort _ | .skip _ | .limit _ => true
  | _ => false

def Event.request? : Event → Option Request
  | .request r => some r
  | _ => none

namespace Collection

def requests (c : Collection) : List Request := c.trace.filterMap Event.request?

def Makes {α : Type} (requests : List Request) (a : Action α) (c : Collection) : Prop :=
  (a.run.run c).2.requests = c.requests ++ requests

section
variable {α β : Type} {c : Collection} {rs : List Request} {operation : String} {filter : Query}

theorem requests_append (c : Collection) (events : List Event) :
    ({ c with trace := c.trace ++ events } : Collection).requests =
      c.requests ++ events.filterMap Event.request? := List.filterMap_append

theorem makes_of_still {a : Action α} (h : (a.run.run c).2 = c) : Makes [] a c := by
  rw [Makes, h, List.append_nil]

theorem Makes.bind_still {a : Action α} {f : α → Action β} (h : Makes rs a c)
    (hf : ∀ x d, ((f x).run.run d).2 = d) : Makes rs (a >>= f) c := by
  unfold Makes at h ⊢
  cases hrun : a.run.run c with
  | mk r d =>
    rw [hrun] at h
    cases r with
    | error e =>
      rw [run_bind_error hrun]
      exact h
    | ok x =>
      rw [run_bind_ok hrun, hf]
      exact h

theorem driverFailure_makes (operation : String) (phase : Phase) (e : DriverError)
    (c : Collection) : Makes [] (driverFailure operation phase e : Action α) c := by
  rw [Makes, driverFailure_run, requests_append]
  cases e <;> rfl

theorem send_makes (server : Server) (operation : String) (phase : Phase) (r : Request)
    (c : Collection) :
    Makes [r] (send server operation phase r) c := by
  rw [Makes, send_run]
  cases (server.replyTo c.asked).error with
  | none => exact requests_append c [.request r]
  | some e =>
    dsimp only
    rw [requests_append]
    cases e <;> rfl

theorem addressAndSend_makes (server : Server) (operation : String) (phase : Phase) (r : Request)
    (c : Collection) :
    Makes (if server.connected then [r] else [])
      (addressAndSend server operation phase (.ok r)) c := by
  unfold addressAndSend
  by_cases hconnected : server.connected
  · have hsent := send_makes server operation phase r
      { c with trace := c.trace ++ [.addressed server.collection] }
    rw [Makes, requests_append] at hsent
    rw [Makes, if_pos hconnected, if_neg (by simp [hconnected]),
      run_bind_ok (address_run hconnected c), hsent]
    simp [Event.request?]
  · rw [if_neg hconnected, if_pos (by simp [hconnected])]
    exact driverFailure_makes operation phase _ c

theorem refuseOperators_fails {key : String} (h : filter.operatorIn? = some key)
    (c : Collection) : (refuseOperators operation filter).run.run c = (.error (.domain {
      fault := .filterKey key, operation := .str operation, collection := c.name }), c) := by
  unfold refuseOperators
  rw [run_get, ofExcept_run, Value.withoutOperators, h]

end

end Collection

/-! ### Operations that take a query -/

inductive QueryCall where
  | stream (options : FindOptions)
  | count
  | update (data : Record) (choice : Value)
  | remove

namespace QueryCall

def operation : QueryCall → String
  | stream _ => "find_stream"
  | count => "count"
  | update .. => "update"
  | remove => "remove"

def run (query : Query) : QueryCall → Action Unit
  | stream options => do let _ ← Collection.openStream query options
  | count => do let _ ← Collection.count query
  | update data choice => do let _ ← Collection.update query (.object data) choice
  | remove => do let _ ← Collection.remove query

def refusal (call : QueryCall) (key : String) (c : Collection) : Failure :=
  .domain { fault := .filterKey key, operation := .str call.operation, collection := c.name }

def Paged (c : Collection) : QueryCall → Prop
  | stream options => (∃ skip, Paging.skip options.skip = .ok skip) ∧
      ∃ limit, Paging.limit (.int c.options.maxQueryLimit) options.limit = .ok limit
  | count | update .. | remove => True

/-- What an operation gets besides its query and its page is fine for a server: fields that can be
asked for, and an update that is not mixed and does not replace whole records. -/
def Fits (c : Collection) : QueryCall → Prop
  | stream options => ∃ projection, projectionOf options.fields = .ok projection
  | update data choice => ¬ Update.IsMixed data ∧
      ((Record.keys data).any isOperator ∨ c.fullReplace choice = false)
  | count | remove => True

def Sends (filter : Query) (requests : List Request) : QueryCall → Prop
  | stream options => ∃ projection settings, projectionOf options.fields = .ok projection ∧
      requests = .find filter projection :: settings ∧ ∀ r ∈ settings, r.isSetting
  | count => requests = [.countDocuments filter]
  | update data _ => requests = [.updateMany filter (.object (Update.expanded data))]
  | remove => requests = [.deleteMany filter]

structure Passes (c : Collection) (server : Server) (filter : Query) (call : QueryCall) : Prop where
  paged : call.Paged c
  plain : ¬ filter.HasOperator false
  fits : call.Fits c
  connected : server.connected

end QueryCall

namespace Collection
variable {c : Collection} {server : Server} {query : Query} {options : FindOptions} {key : String}

theorem update_remote (hc : c.backend = .remote server) (query : Query) (given choice : Value) :
    (update query given choice).run.run c = (do
      refuseOperators "update" (Query.explicit query)
      let given ← serverUpdate (c.fullReplace choice) given
      let reply ← addressAndSend server "update" .write
        (.ok (.updateMany (Query.explicit query) given))
      ofExcept (Reply.told reply.matched) : Action Value).run.run c := by
  unfold update
  rw [run_get]
  dsimp only
  rw [run_get, hc]
  rfl

theorem count_remote (hc : c.backend = .remote server) (query : Query) :
    (count query).run.run c = (serverCount server query).run.run c := by
  unfold count
  rw [run_get, hc]

theorem remove_remote (hc : c.backend = .remote server) (query : Query) :
    (remove query).run.run c = (do
      refuseOperators "remove" (Query.explicit query)
      let reply ← addressAndSend server "remove" .write (.ok (.deleteMany (Query.explicit query)))
      ofExcept (Reply.told reply.deleted) : Action Value).run.run c := by
  unfold remove
  rw [run_get, hc]

theorem cursor_fails {skip limit : Value} (hskip : Paging.skip options.skip = .ok skip)
    (hlimit : Paging.limit (.int c.options.maxQueryLimit) options.limit = .ok limit)
    (h : (Query.explicit query).operatorIn? = some key) : (cursor server query options).run.run c =
      (.error ((QueryCall.stream options).refusal key c), c) := by
  unfold cursor
  rw [run_get]
  dsimp only
  rw [run_ofExcept hskip, run_ofExcept hlimit, run_bind_error (refuseOperators_fails h c)]
  rfl

def SetUp (opened d : Collection) : Prop :=
  ∃ settings, d.requests = opened.requests ++ settings ∧ ∀ r ∈ settings, r.isSetting

theorem note_setUp {opened : Collection} {r : Request} (h : r.isSetting) :
    Keeps (SetUp opened) (note (.request r)) := by
  rintro d ⟨settings, hsettings, hall⟩
  have hnoted := requests_append d [.request r]
  rw [hsettings, List.append_assoc] at hnoted
  exact ⟨settings ++ [r], hnoted, List.forall_mem_append.mpr ⟨hall, by simpa using h⟩⟩

theorem noteIf_setUp {opened : Collection} {r : Request} {p : Prop} [Decidable p] {α : Type}
    {k : Unit → Action α} (h : r.isSetting) (hk : ∀ u, Keeps (SetUp opened) (k u)) :
    Keeps (SetUp opened) (if p then (do let u ← note (.request r); k u) else k ()) := by
  split
  · exact (note_setUp h).bind hk
  · exact hk ()

theorem setUp_of_keeps {α : Type} {opened : Collection} {a : Action α}
    (h : Keeps (SetUp opened) a) : SetUp opened (a.run.run opened).2 :=
  h opened ⟨[], (List.append_nil _).symm, by simp⟩

theorem cursor_sends {skip limit : Value} {projection : Option Record}
    (hskip : Paging.skip options.skip = .ok skip)
    (hlimit : Paging.limit (.int c.options.maxQueryLimit) options.limit = .ok limit)
    (hplain : (Query.explicit query).operatorIn? = none)
    (hfields : projectionOf options.fields = .ok projection) (hconnected : server.connected) :
    ∃ settings, Makes (.find (Query.explicit query) projection :: settings)
      (cursor server query options) c ∧ ∀ r ∈ settings, r.isSetting := by
  let named : Collection := { c with trace := c.trace ++ [.addressed server.collection] }
  let opened : Collection := { named with
    trace := named.trace ++ [.request (.find (Query.explicit query) projection)] }
  have hnote : (note (.request (.find (Query.explicit query) projection))).run.run named =
      (.ok (), opened) := rfl
  have hopened : opened.requests =
      c.requests ++ [.find (Query.explicit query) projection] := by
    rw [requests_append, requests_append]
    simp [Event.request?]
  unfold cursor Makes
  rw [run_get]
  dsimp only
  rw [run_ofExcept hskip, run_ofExcept hlimit, run_bind_ok (refuseOperators_run hplain c),
    run_ofExcept hfields, run_bind_ok (address_run hconnected c),
    run_bind_ok (comingReply_run named), run_bind_ok hnote]
  have hsplit (settings : List Request) : c.requests ++
      .find (Query.explicit query) projection :: settings = opened.requests ++ settings := by
    rw [hopened, List.append_assoc]
    rfl
  simp only [hsplit]
  change SetUp opened _
  apply setUp_of_keeps
  exact (ofExcept_keeps _).bind fun keys => noteIf_setUp rfl fun _ => noteIf_setUp rfl fun _ =>
    noteIf_setUp rfl fun _ d hd => hd

theorem cursor_stays
    (h : ¬ (QueryCall.stream options).Passes c server (Query.explicit query)) :
    ((cursor server query options).run.run c).2 = c := by
  unfold cursor
  rw [run_get]
  dsimp only
  cases hskip : Paging.skip options.skip with
  | error f => rfl
  | ok skip =>
    rw [run_ofExcept rfl]
    cases hlimit : Paging.limit (.int c.options.maxQueryLimit) options.limit with
    | error f => rfl
    | ok limit =>
      rw [run_ofExcept rfl]
      cases hkey : (Query.explicit query).operatorIn? with
      | some key => rw [run_bind_error (refuseOperators_fails hkey c)]
      | none =>
        rw [run_bind_ok (refuseOperators_run hkey c)]
        cases hfields : projectionOf options.fields with
        | error f => rfl
        | ok projection =>
          rw [run_ofExcept rfl]
          have hconnected : ¬ server.connected := fun hconnected => h {
            paged := ⟨⟨skip, hskip⟩, limit, hlimit⟩
            plain := Value.operatorIn?_eq_none_iff.mp hkey
            fits := ⟨projection, hfields⟩
            connected := hconnected }
          have haddress : (address server).run.run c = (.error .databaseMissing, c) := by
            unfold address
            rw [if_neg hconnected]
            rfl
          rw [run_bind_error haddress]

theorem serverCount_makes (server : Server) (h : (Query.explicit query).operatorIn? = none)
    (c : Collection) :
    Makes (if server.connected then [.countDocuments (Query.explicit query)] else [])
      (serverCount server query) c := by
  unfold serverCount Makes
  dsimp only
  rw [run_bind_ok (refuseOperators_run h c)]
  exact (addressAndSend_makes server _ _ _ c).bind_still fun _ _ => rfl

theorem remove_makes (hc : c.backend = .remote server)
    (h : (Query.explicit query).operatorIn? = none) :
    Makes (if server.connected then [.deleteMany (Query.explicit query)] else [])
      (remove query) c := by
  unfold Makes
  rw [remove_remote hc, run_bind_ok (refuseOperators_run h c)]
  exact (addressAndSend_makes server _ _ _ c).bind_still fun _ _ => by rw [ofExcept_run]

/-! ### Updates of a server -/

section
variable {data : Record}

theorem serverUpdate_of_mixed (fullReplace : Bool) (h : Update.IsMixed data) (c : Collection) :
    (serverUpdate fullReplace (.object data)).run.run c = (.error (.domain {
      fault := .mixedUpdate, operation := .str "update", collection := c.name }), c) := by
  have hmixed : isOperatorUpdate (Record.keys data) = .error .mixedUpdate :=
    (Update.isOperatorUpdate_eq _).trans (if_pos h)
  unfold serverUpdate
  rw [run_ofExcept Update.updateNames_object, hmixed]
  rfl

theorem serverUpdate_of_not_mixed (fullReplace : Bool) (h : ¬ Update.IsMixed data)
    (c : Collection) :
    (serverUpdate fullReplace (.object data)).run.run c =
      (if (Record.keys data).any isOperator ∨ fullReplace = false then
        .ok (.object (Update.expanded data))
      else .error (.domain {
        fault := .notImplemented "update with full replace",
        operation := .str "update with full replace", collection := c.name }), c) := by
  have hpure : isOperatorUpdate (Record.keys data) = .ok ((Record.keys data).any isOperator) :=
    (Update.isOperatorUpdate_eq _).trans (if_neg h)
  unfold serverUpdate
  rw [run_ofExcept Update.updateNames_object, hpure, Update.expanded]
  cases (Record.keys data).any isOperator with
  | true => rfl
  | false => cases fullReplace <;> rfl

end

theorem update_makes {data : Record} {choice : Value} (hc : c.backend = .remote server)
    (h : (Query.explicit query).operatorIn? = none)
    (hfits : (QueryCall.update data choice).Fits c) :
    Makes (if server.connected then
        [.updateMany (Query.explicit query) (.object (Update.expanded data))] else [])
      (update query (.object data) choice) c := by
  have hserver := serverUpdate_of_not_mixed (c.fullReplace choice) hfits.1 c
  rw [if_pos hfits.2] at hserver
  unfold Makes
  rw [update_remote hc, run_bind_ok (refuseOperators_run h c), run_bind_ok hserver]
  exact (addressAndSend_makes server _ _ _ c).bind_still fun _ _ => by rw [ofExcept_run]

theorem update_stays {data : Record} {choice : Value} (hc : c.backend = .remote server)
    (h : (Query.explicit query).operatorIn? = none)
    (hfits : ¬ (QueryCall.update data choice).Fits c) :
    ((update query (.object data) choice).run.run c).2 = c := by
  rw [update_remote hc, run_bind_ok (refuseOperators_run h c)]
  by_cases hmixed : Update.IsMixed data
  · rw [run_bind_error (serverUpdate_of_mixed _ hmixed c)]
  · have hserver := serverUpdate_of_not_mixed (c.fullReplace choice) hmixed c
    rw [if_neg fun hplain => hfits ⟨hmixed, hplain⟩] at hserver
    rw [run_bind_error hserver]

end Collection

namespace QueryCall
open Collection
variable {c : Collection} {server : Server} {query : Query} {call : QueryCall}

/-- A filter with an operator ends an operation before anything is done. -/
theorem run_of_operator {key : String} (hc : c.backend = .remote server) (hpaged : call.Paged c)
    (hkey : (Query.explicit query).operatorIn? = some key) :
    (call.run query).run.run c = (.error (call.refusal key c), c) := by
  cases call with
  | stream options =>
    obtain ⟨⟨skip, hskip⟩, limit, hlimit⟩ := hpaged
    apply run_bind_error
    rw [openStream_remote hc, run_bind_error (cursor_fails hskip hlimit hkey)]
  | count =>
    apply run_bind_error
    rw [count_remote hc]
    exact run_bind_error (refuseOperators_fails hkey c)
  | update data choice =>
    apply run_bind_error
    rw [update_remote hc, run_bind_error (refuseOperators_fails hkey c)]
    rfl
  | remove =>
    apply run_bind_error
    rw [remove_remote hc, run_bind_error (refuseOperators_fails hkey c)]
    rfl

theorem run_of_passes (hc : c.backend = .remote server)
    (h : call.Passes c server (Query.explicit query)) : ∃ sent,
    Makes sent (call.run query) c ∧ call.Sends (Query.explicit query) sent := by
  have hplain := Value.operatorIn?_eq_none_iff.mpr h.plain
  cases call with
  | stream options =>
    obtain ⟨⟨skip, hskip⟩, limit, hlimit⟩ := h.paged
    obtain ⟨projection, hfields⟩ := h.fits
    obtain ⟨settings, hmakes, hsettings⟩ :=
      cursor_sends hskip hlimit hplain hfields h.connected
    refine ⟨_, Makes.bind_still ?_ fun _ _ => rfl, projection, settings, hfields, rfl, hsettings⟩
    unfold Makes
    rw [openStream_remote hc]
    exact hmakes.bind_still fun _ _ => rfl
  | count =>
    have hmakes := serverCount_makes server hplain c
    rw [if_pos h.connected, Makes, ← count_remote hc] at hmakes
    exact ⟨_, Makes.bind_still hmakes fun _ _ => rfl, rfl⟩
  | update data choice =>
    have hmakes := update_makes hc hplain h.fits
    rw [if_pos h.connected] at hmakes
    exact ⟨_, hmakes.bind_still fun _ _ => rfl, rfl⟩
  | remove =>
    have hmakes := remove_makes hc hplain
    rw [if_pos h.connected] at hmakes
    exact ⟨_, hmakes.bind_still fun _ _ => rfl, rfl⟩

theorem run_of_not_passes (hc : c.backend = .remote server)
    (h : ¬ call.Passes c server (Query.explicit query)) : Makes [] (call.run query) c := by
  have hrefused {key : String} (hpaged : call.Paged c)
      (hkey : (Query.explicit query).operatorIn? = some key) : Makes [] (call.run query) c := by
    apply makes_of_still
    rw [run_of_operator hc hpaged hkey]
  have hunconnected (hpaged : call.Paged c) (hkey : (Query.explicit query).operatorIn? = none)
      (hfits : call.Fits c) : ¬ server.connected :=
    fun hconnected => h ⟨hpaged, Value.operatorIn?_eq_none_iff.mp hkey, hfits, hconnected⟩
  cases call with
  | stream options =>
    refine Makes.bind_still ?_ fun _ _ => rfl
    unfold Makes
    rw [openStream_remote hc]
    exact (makes_of_still (cursor_stays h)).bind_still fun _ _ => rfl
  | count =>
    cases hkey : (Query.explicit query).operatorIn? with
    | some key => exact hrefused trivial hkey
    | none =>
      have hmakes := serverCount_makes server hkey c
      rw [if_neg (hunconnected trivial hkey trivial), Makes, ← count_remote hc] at hmakes
      exact Makes.bind_still hmakes fun _ _ => rfl
  | update data choice =>
    cases hkey : (Query.explicit query).operatorIn? with
    | some key => exact hrefused trivial hkey
    | none =>
      refine Makes.bind_still ?_ fun _ _ => rfl
      by_cases hfits : (QueryCall.update data choice).Fits c
      · have hmakes := update_makes hc hkey hfits
        rwa [if_neg (hunconnected trivial hkey hfits)] at hmakes
      · exact makes_of_still (update_stays hc hkey hfits)
  | remove =>
    cases hkey : (Query.explicit query).operatorIn? with
    | some key => exact hrefused trivial hkey
    | none =>
      have hmakes := remove_makes hc hkey
      rw [if_neg (hunconnected trivial hkey trivial)] at hmakes
      exact hmakes.bind_still fun _ _ => rfl

/-- On a server an operation whose filter has an operator outside tuples fails before anything is
done. Any other sends its filter as it is, once nothing else is in the way, and what does not get so
far sends nothing. An update is sent with operators alone: plain members under the one that sets;
a mixed one fails before anything is done. -/
theorem server_gets_no_operators (hc : c.backend = .remote server) (query : Query)
    (call : QueryCall) :
    let filter := Query.explicit query
    let out := (call.run query).run.run c
    (query.isObject → filter = query) ∧
    (call.Paged c → filter.HasOperator false → ∃ key, isOperator key ∧ filter.Names false key ∧
      out = (.error (call.refusal key c), c)) ∧
    (call.Passes c server filter →
      ∃ sent, out.2.requests = c.requests ++ sent ∧ call.Sends filter sent) ∧
    (¬ call.Passes c server filter → out.2.requests = c.requests) ∧
    ∀ data choice, call = .update data choice →
      (¬ filter.HasOperator false → Update.IsMixed data → out = (.error (.domain {
        fault := .mixedUpdate, operation := .str "update", collection := c.name }), c)) ∧
      (call.Fits c → ∀ name ∈ Record.keys (Update.expanded data), isOperator name) := by
  intro filter out
  refine ⟨fun hobject => ?_, fun hpaged hoperator => ?_, fun h => run_of_passes hc h, fun h => ?_,
    fun data choice hcall => ⟨fun hplain hmixed => ?_, fun hfits => ?_⟩⟩
  · obtain ⟨ms, rfl⟩ := Value.isObject_iff.mp hobject
    exact Query.explicit_object ms
  · obtain ⟨key, hkey⟩ := Value.hasOperator_iff.mp hoperator
    obtain ⟨hoperator, hnames⟩ := Value.names_of_operatorIn? hkey
    exact ⟨key, hoperator, hnames, run_of_operator hc hpaged hkey⟩
  · have hmakes := run_of_not_passes hc h
    rwa [Makes, List.append_nil] at hmakes
  · subst hcall
    have hkey := Value.operatorIn?_eq_none_iff.mpr hplain
    apply run_bind_error
    rw [update_remote hc, run_bind_ok (refuseOperators_run hkey c),
      run_bind_error (serverUpdate_of_mixed _ hmixed c)]
  · subst hcall
    exact Update.expanded_operators hfits.1

theorem server_gets_no_operators_of_nested :
    let server : Server := { collection := .str "animal" }
    let c : Collection := { name := .str "Animal", backend := .remote server }
    let nested : Query := .object [("tags", .list [.object [("$ne", .int 1)]])]
    let plain : Query := .object [("age", .int 3)]
    let older : QueryCall := .update [("age", .int 4)] .null
    c.backend = .remote server ∧ nested.HasOperator false ∧
      (∃ key, isOperator key ∧ (count.run nested).run.run c = (.error (count.refusal key c), c)) ∧
      older.Passes c server plain ∧ ((older.run plain).run.run c).2.requests =
        [.updateMany plain (.object [("$set", .object [("age", .int 4)])])] := by
  intro server c nested plain older
  have hoperator : nested.HasOperator false :=
    ⟨"$ne", by decide, .under List.mem_cons_self (.item List.mem_cons_self
      (.member List.mem_cons_self rfl))⟩
  have hplain : plain.operatorIn? = none := by decide
  have hpasses : older.Passes c server plain := {
    paged := trivial
    plain := Value.operatorIn?_eq_none_iff.mp hplain
    fits := ⟨fun hmixed => absurd hmixed.1 (by decide), .inr rfl⟩
    connected := rfl }
  obtain ⟨-, hrefused, -⟩ := server_gets_no_operators (c := c) rfl nested count
  obtain ⟨-, -, hsent, -⟩ := server_gets_no_operators (c := c) rfl plain older
  obtain ⟨key, hkey, -, hrun⟩ := hrefused trivial hoperator
  obtain ⟨sent, hrequests, hsends⟩ := hsent hpasses
  refine ⟨rfl, hoperator, ⟨key, hkey, hrun⟩, hpasses, ?_⟩
  rw [hrequests, show sent = _ from hsends]
  rfl

/-- An operator in a tuple gets to the server. -/
theorem operator_in_tuple_sent :
    let server : Server := { collection := .str "animal" }
    let c : Collection := { name := .str "Animal", backend := .remote server }
    let query : Query := .object [("a", .tuple [.object [("$gt", .int 1)]])]
    query.HasOperator true ∧ ((count.run query).run.run c).1 = .ok () ∧
      ((count.run query).run.run c).2.requests = [.countDocuments query] := by
  intro server c query
  refine ⟨⟨"$gt", by decide, ?_⟩, rfl, rfl⟩
  exact .under List.mem_cons_self (.part rfl List.mem_cons_self (.member List.mem_cons_self rfl))

end QueryCall

end RecordStore
